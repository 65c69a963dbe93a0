/-!
Computations that keep a record of what they do and may fail.

A `Traced` value holds the events in the order in which they happened and the result. The events of
a computation that fails stay. Sequencing appends the events of the second step to those of the
first, and leaves the second step out after a failure (`bind_eq_of_ok`, `bind_eq_of_error`). The
laws of monads hold.
-/

namespace Railroad

/-- Events of type `ω` and a result of type `α` or a failure of type `ε`. -/
structure Traced (ω ε α : Type) where
  events : List ω
  result : Except ε α

namespace Traced

variable {ω ε α β : Type}

protected def bind (x : Traced ω ε α) (f : α → Traced ω ε β) : Traced ω ε β :=
  match x.result with
  | .ok a =>
    let y := f a
    ⟨x.events ++ y.events, y.result⟩
  | .error e => ⟨x.events, .error e⟩

/-- Changes the result only. -/
protected def map (f : α → β) (x : Traced ω ε α) : Traced ω ε β :=
  ⟨x.events, x.result.map f⟩

instance : Monad (Traced ω ε) where
  pure a := ⟨[], .ok a⟩
  map := Traced.map
  bind := Traced.bind

/-- Records an event. -/
def emit (event : ω) : Traced ω ε Unit :=
  ⟨[event], .ok ()⟩

/-- Records several events. -/
def record (events : List ω) : Traced ω ε Unit :=
  ⟨events, .ok ()⟩

/-- Records nothing. -/
def ofExcept (result : Except ε α) : Traced ω ε α :=
  ⟨[], result⟩

/-- A step that succeeds goes on from its result. -/
theorem bind_eq_of_ok {x : Traced ω ε α} {a : α} (h : x.result = .ok a) (f : α → Traced ω ε β) :
    x >>= f = ⟨x.events ++ (f a).events, (f a).result⟩ := by
  simp [bind, Traced.bind, h]

/-- A step that fails is the last one. -/
theorem bind_eq_of_error {x : Traced ω ε α} {e : ε} (h : x.result = .error e)
    (f : α → Traced ω ε β) : x >>= f = ⟨x.events, .error e⟩ := by
  simp [bind, Traced.bind, h]

theorem events_bind_ok {x : Traced ω ε α} {a : α} (h : x.result = .ok a)
    (f : α → Traced ω ε β) : (x >>= f).events = x.events ++ (f a).events := by
  rw [bind_eq_of_ok h]

/-- What is recorded is recorded in the first step or in the next. -/
theorem mem_events_bind {x : Traced ω ε α} {f : α → Traced ω ε β} {event : ω}
    (h : event ∈ (x >>= f).events) :
    event ∈ x.events ∨ ∃ a, x.result = .ok a ∧ event ∈ (f a).events := by
  cases result : x.result with
  | error e =>
    rw [bind_eq_of_error result] at h
    exact .inl h
  | ok a =>
    rw [bind_eq_of_ok result] at h
    rcases List.mem_append.mp h with first | next
    · exact .inl first
    · exact .inr ⟨a, rfl, next⟩

@[simp] theorem events_pure (a : α) : (pure a : Traced ω ε α).events = [] := rfl

@[simp] theorem result_pure (a : α) : (pure a : Traced ω ε α).result = .ok a := rfl

@[simp] theorem events_map (f : α → β) (x : Traced ω ε α) : (f <$> x).events = x.events := rfl

@[simp] theorem result_map (f : α → β) (x : Traced ω ε α) :
    (f <$> x).result = x.result.map f := rfl

@[simp] theorem result_bind (x : Traced ω ε α) (f : α → Traced ω ε β) :
    (x >>= f).result = x.result >>= fun a => (f a).result := by
  simp only [bind, Traced.bind]
  cases x.result <;> rfl

instance : LawfulMonad (Traced ω ε) := by
  have start : ∀ {α β : Type} (a : α) (f : α → Traced ω ε β), pure a >>= f = f a := by
    intro _ _ a f
    rw [bind_eq_of_ok (result_pure a)]
    rfl
  refine LawfulMonad.mk' _ ?idMap start ?bindAssoc (by intros; rfl) ?seqLeft ?seqRight ?bindPure
    (by intros; rfl)
  case idMap => rintro _ ⟨events, e | a⟩ <;> rfl
  case bindAssoc =>
    intro _ _ _ x f h
    cases result : x.result with
    | error e => rw [bind_eq_of_error result, bind_eq_of_error rfl, bind_eq_of_error result]
    | ok a =>
      rw [bind_eq_of_ok result, bind_eq_of_ok result]
      cases next : (f a).result with
      | error e => rw [bind_eq_of_error next, bind_eq_of_error rfl]
      | ok b => rw [bind_eq_of_ok next, bind_eq_of_ok rfl, List.append_assoc]
  case bindPure =>
    rintro _ _ f ⟨events, e | a⟩
    · rfl
    · exact congrArg (Traced.mk · _) (List.append_nil events)
  case seqLeft => intros; rfl
  case seqRight => intros; rfl

end Traced

end Railroad
