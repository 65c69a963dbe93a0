import Mathlib.Logic.Relation
import Railroad.Proofs.CanonicalText
import Railroad.Proofs.DistinctKeys

/-!
The keys of a diagram are the chains of ids that lead to what it shows.

* `Place.Step`: how a chain goes on from a part to a part inside it. It leaves out the factors that
  a compacted term absorbs, and goes on behind a reference if the reference is opened.
* `Leads`: a chain goes on to what a mark says, under the key of the mark.
* `Parts.mem_marks_iff`, `Grammar.mem_marks_shown_iff`: the marks of a part and of a reference are
  those to which chains from it lead.
* `Grammar.keys_diagram`: the keys of a diagram are different from each other, and they are the
  chains from its start to a terminal or a reference.
-/

namespace Railroad

/-! ### Chains -/

/-- The term is compacted, and the factor at this place is not drawn. -/
def Term.absorbs (t : Term) (i : Nat) : Bool :=
  match Compaction.of t.factors with
  | .fullMatch index matched | .separator index matched _ => index - matched ≤ i && i < index
  | _ => false

/-- The term is compacted, and the factor at this place becomes a separator loop. -/
def Term.separatesAt (t : Term) (i : Nat) : Bool :=
  match Compaction.of t.factors with
  | .separator index _ _ => i = index
  | _ => false

theorem Term.absorbs_eq_false {t : Term} (h : (Compaction.of t.factors).isPlain = true) (i : Nat) :
    t.absorbs i = false := by
  unfold absorbs
  split
  · rename_i decided
    rw [decided] at h
    cases h
  · rename_i decided
    rw [decided] at h
    cases h
  · rfl

theorem Term.separatesAt_eq_false {t : Term} (h : (Compaction.of t.factors).isPlain = true)
    (i : Nat) : t.separatesAt i = false := by
  unfold separatesAt
  split
  · rename_i decided
    rw [decided] at h
    cases h
  · rfl

section Compacted

variable {t : Term} {index matched separator : Nat}

theorem Term.absorbs_fullMatch (h : Compaction.of t.factors = .fullMatch index matched) (i : Nat) :
    t.absorbs i = true ↔ index - matched ≤ i ∧ i < index := by
  simp [absorbs, h]

theorem Term.absorbs_separator (h : Compaction.of t.factors = .separator index matched separator)
    (i : Nat) : t.absorbs i = true ↔ index - matched ≤ i ∧ i < index := by
  simp [absorbs, h]

theorem Term.separatesAt_fullMatch (h : Compaction.of t.factors = .fullMatch index matched)
    (i : Nat) : t.separatesAt i = false := by
  simp [separatesAt, h]

theorem Term.separatesAt_separator
    (h : Compaction.of t.factors = .separator index matched separator) (i : Nat) :
    t.separatesAt i = true ↔ i = index := by
  simp [separatesAt, h]

end Compacted

/-- How the terms of an expression are drawn: each as a whole, so that it may be compacted, or
factor by factor. -/
inductive Manner where
  | whole
  | pieces
deriving DecidableEq, Repr

/-- How the terms in the brackets of a factor are drawn if the factor is drawn by itself. -/
def Factor.manner (f : Factor) : Manner :=
  if f.isParallel then .pieces else .whole

/-- A repetition of one term is drawn as a loop of it, not as ways back. -/
theorem Factor.manner_repetition {id : NodeId} {body : Expression} {inner : Term}
    (terms : body.terms = [inner]) : (bracketed id .repetition body).manner = .whole := by
  simp [manner, isParallel, terms]

/-- How the terms in the brackets of the factor at a place of a term are drawn. -/
def Term.mannerAt (t : Term) (manner : Manner) (i : Nat) (f : Factor) : Manner :=
  if manner = .whole ∧ t.separatesAt i then .pieces else f.manner

theorem Term.mannerAt_eq_pieces {t : Term} {i : Nat} (h : t.separatesAt i = true) (f : Factor) :
    t.mannerAt .whole i f = .pieces :=
  if_pos ⟨rfl, h⟩

theorem Term.mannerAt_eq_manner {t : Term} {i : Nat} (h : t.separatesAt i ≠ true) (manner : Manner)
    (f : Factor) : t.mannerAt manner i f = f.manner :=
  if_neg fun both => h both.2

/-- In pieces, every factor is drawn by itself. -/
theorem Term.mannerAt_pieces (t : Term) (i : Nat) (f : Factor) : t.mannerAt .pieces i f = f.manner :=
  if_neg (by simp)

/-- Where a chain of ids can have led to. -/
inductive Place where
  | expression (e : Expression) (manner : Manner)
  | term (t : Term) (manner : Manner)
  /-- A factor, with the manner for the terms in its brackets. -/
  | factor (f : Factor) (manner : Manner)
  | reference (name : String)
  | terminal (text : String)

section Chains

variable (g : Grammar) (selected : PathKey → Bool)

/-- A reference under this key is opened. -/
def Grammar.Opens (key : PathKey) (name : String) (p : Production) : Prop :=
  key.depth < maxDepth ∧ selected key = true ∧ g.find? name = some p

/-- A chain goes on by one id, from a part to a part right inside it, or from an opened reference to
the expression of the production it names. -/
inductive Place.Step : List NodeId × Place → List NodeId × Place → Prop where
  | term {ids : List NodeId} {e : Expression} {manner : Manner} {t : Term} :
      t ∈ e.terms → Step (ids, .expression e manner) (ids ++ [t.id], .term t manner)
  | factor {ids : List NodeId} {t : Term} {manner : Manner} {i : Nat} {f : Factor} :
      t.factors[i]? = some f → (manner = .whole → t.absorbs i = false) →
      Step (ids, .term t manner) (ids ++ [f.id], .factor f (t.mannerAt manner i f))
  | body {ids : List NodeId} {id : NodeId} {bracket : Bracket} {body : Expression}
      {manner : Manner} :
      Step (ids, .factor (.bracketed id bracket body) manner)
        (ids ++ [body.id], .expression body manner)
  | literal {ids : List NodeId} {id : NodeId} {l : Literal} {manner : Manner} :
      Step (ids, .factor (.literal id l) manner) (ids ++ [l.id], .terminal l.text)
  | name {ids : List NodeId} {id : NodeId} {name : Identifier} {manner : Manner} :
      name.isReference = false →
      Step (ids, .factor (.identifier id name) manner) (ids ++ [name.id], .terminal name.text)
  | reference {ids : List NodeId} {id : NodeId} {name : Identifier} {manner : Manner} :
      name.isReference = true →
      Step (ids, .factor (.identifier id name) manner) (ids ++ [name.id], .reference name.text)
  | opened {ids : List NodeId} {name : String} {p : Production} :
      g.Opens selected ⟨ids⟩ name p →
      Step (ids, .reference name) (ids ++ [p.body.id], .expression p.body .whole)

/-- What is shown under a key for a chain that has led to this place. -/
def Place.Shows (key : PathKey) : Place → Mark → Prop
  | .terminal text, .terminal text' => text' = text
  | .reference name, .opened name' => name' = name ∧ ∃ p, g.Opens selected key name p
  | .reference name, .closed name' => name' = name ∧ ¬ ∃ p, g.Opens selected key name p
  | _, _ => False

/-- A chain from this place leads, under the key of the mark, to what the mark says. -/
def Leads (start : List NodeId × Place) (mark : PathKey × Mark) : Prop :=
  ∃ place, Relation.ReflTransGen (Place.Step g selected) start (mark.1.ids, place) ∧
    place.Shows g selected mark.1 mark.2

end Chains

section Leads

variable {g : Grammar} {selected : PathKey → Bool} {ids : List NodeId} {mark : PathKey × Mark}

/-- A chain is at its end or goes on. -/
theorem leads_iff {place : Place} :
    Leads g selected (ids, place) mark ↔
      (mark.1.ids = ids ∧ place.Shows g selected mark.1 mark.2) ∨
        ∃ next, Place.Step g selected (ids, place) next ∧ Leads g selected next mark := by
  unfold Leads
  constructor
  · rintro ⟨last, chain, shown⟩
    rcases Relation.ReflTransGen.cases_head chain with same | ⟨next, first, rest⟩
    · cases same
      exact .inl ⟨rfl, shown⟩
    · exact .inr ⟨next, first, last, rest, shown⟩
  · rintro (⟨rfl, shown⟩ | ⟨next, first, last, rest, shown⟩)
    · exact ⟨place, .refl, shown⟩
    · exact ⟨last, .head first rest, shown⟩

theorem leads_expression {e : Expression} {manner : Manner} :
    Leads g selected (ids, .expression e manner) mark ↔
      ∃ t ∈ e.terms, Leads g selected (ids ++ [t.id], .term t manner) mark := by
  rw [leads_iff]
  constructor
  · rintro (⟨-, shown⟩ | ⟨-, ⟨ht⟩, rest⟩)
    · cases shown
    · exact ⟨_, ht, rest⟩
  · rintro ⟨t, ht, rest⟩
    exact .inr ⟨_, .term ht, rest⟩

theorem leads_term {t : Term} {manner : Manner} :
    Leads g selected (ids, .term t manner) mark ↔
      ∃ i f, t.factors[i]? = some f ∧ (manner = .whole → t.absorbs i = false) ∧
        Leads g selected (ids ++ [f.id], .factor f (t.mannerAt manner i f)) mark := by
  rw [leads_iff]
  constructor
  · rintro (⟨-, shown⟩ | ⟨_, first, rest⟩)
    · cases shown
    · cases first with
      | factor found drawn => exact ⟨_, _, found, drawn, rest⟩
  · rintro ⟨i, f, found, drawn, rest⟩
    exact .inr ⟨_, .factor found drawn, rest⟩

theorem leads_bracketed {id : NodeId} {bracket : Bracket} {body : Expression} {manner : Manner} :
    Leads g selected (ids, .factor (.bracketed id bracket body) manner) mark ↔
      Leads g selected (ids ++ [body.id], .expression body manner) mark := by
  rw [leads_iff]
  constructor
  · rintro (⟨-, shown⟩ | ⟨-, ⟨⟩, rest⟩)
    · cases shown
    · exact rest
  · exact fun rest => .inr ⟨_, .body, rest⟩

theorem leads_terminal {text : String} :
    Leads g selected (ids, .terminal text) mark ↔ mark = (⟨ids⟩, .terminal text) := by
  obtain ⟨⟨key⟩, what⟩ := mark
  rw [leads_iff]
  constructor
  · rintro (⟨rfl, shown⟩ | ⟨-, ⟨⟩, rest⟩)
    cases what with
    | terminal text' =>
      cases shown
      rfl
    | closed name => cases shown
    | opened name => cases shown
  · rintro ⟨⟩
    exact .inl ⟨rfl, rfl⟩

theorem leads_literal {id : NodeId} {l : Literal} {manner : Manner} :
    Leads g selected (ids, .factor (.literal id l) manner) mark ↔
      mark = (⟨ids ++ [l.id]⟩, .terminal l.text) := by
  rw [leads_iff, ← leads_terminal]
  constructor
  · rintro (⟨-, shown⟩ | ⟨_, ⟨⟩, rest⟩)
    · cases shown
    · exact rest
  · exact fun rest => .inr ⟨_, .literal, rest⟩

theorem leads_identifier {id : NodeId} {name : Identifier} {manner : Manner} :
    Leads g selected (ids, .factor (.identifier id name) manner) mark ↔
      if name.isReference then Leads g selected (ids ++ [name.id], .reference name.text) mark
      else mark = (⟨ids ++ [name.id]⟩, .terminal name.text) := by
  rw [leads_iff, ← leads_terminal]
  constructor
  · rintro (⟨-, shown⟩ | ⟨_, first, rest⟩)
    · cases shown
    · cases first with
      | name small => rwa [if_neg (by simp [small])]
      | reference capital => rwa [if_pos capital]
  · intro rest
    split at rest
    · rename_i capital
      exact .inr ⟨_, .reference capital, rest⟩
    · rename_i small
      exact .inr ⟨_, .name (by simpa using small), rest⟩

theorem leads_reference {name : String} :
    Leads g selected (ids, .reference name) mark ↔
      (mark.1 = ⟨ids⟩ ∧ (Place.reference name).Shows g selected mark.1 mark.2) ∨
        ∃ p, g.Opens selected ⟨ids⟩ name p ∧
          Leads g selected (ids ++ [p.body.id], .expression p.body .whole) mark := by
  obtain ⟨⟨key⟩, what⟩ := mark
  rw [leads_iff]
  constructor
  · rintro (⟨rfl, shown⟩ | ⟨_, first, rest⟩)
    · exact .inl ⟨rfl, shown⟩
    · cases first with
      | opened opens => exact .inr ⟨_, opens, rest⟩
  · rintro (⟨⟨⟩, shown⟩ | ⟨p, opens, rest⟩)
    · exact .inl ⟨rfl, shown⟩
    · exact .inr ⟨_, .opened opens, rest⟩

end Leads

/-! ### Marks and chains -/

section Layout

variable (g : Grammar) (selected : PathKey → Bool) (refer : String → PathKey → Track) (depth : Nat)

/-- References with keys of more than `depth` ids have the marks to which chains from them lead. -/
def Follows : Prop :=
  ∀ name path, depth < path.depth → ∀ mark,
    mark ∈ (refer name path).marks ↔ Leads g selected (path.ids, .reference name) mark

/-- The factor, drawn by itself, has the marks to which chains from it lead. -/
def Factor.Follows (f : Factor) : Prop :=
  ∀ above, depth ≤ above.length → ∀ mark,
    mark ∈ ((f.layout above).track refer).marks ↔
      Leads g selected (above ++ [f.id], .factor f f.manner) mark

variable {g selected refer depth} {above : List NodeId} {mark : PathKey × Mark}

theorem Factor.mem_marksAll_iff {factors : List Factor}
    (each : ∀ f ∈ factors, f.Follows g selected refer depth) (deep : depth ≤ above.length) :
    mark ∈ Factor.marksAll refer above factors ↔
      ∃ f ∈ factors, Leads g selected (above ++ [f.id], .factor f f.manner) mark := by
  rw [Factor.marksAll, List.mem_flatMap]
  constructor
  · rintro ⟨f, hf, hm⟩
    exact ⟨f, hf, (each f hf above deep mark).mp hm⟩
  · rintro ⟨f, hf, leads⟩
    exact ⟨f, hf, (each f hf above deep mark).mpr leads⟩

/-- A property of items at their places that does not depend on the place. -/
theorem exists_getElem?_iff {α : Type} {items : List α} {P : Nat → α → Prop} {Q : α → Prop}
    (h : ∀ i a, items[i]? = some a → (P i a ↔ Q a)) :
    (∃ i a, items[i]? = some a ∧ P i a) ↔ ∃ a ∈ items, Q a := by
  constructor
  · rintro ⟨i, a, found, holds⟩
    exact ⟨a, List.mem_of_getElem? found, (h i a found).mp holds⟩
  · rintro ⟨a, ha, holds⟩
    obtain ⟨i, found⟩ := List.mem_iff_getElem?.mp ha
    exact ⟨i, a, found, (h i a found).mpr holds⟩

/-- In pieces, a chain may go on to every factor of a term. -/
theorem leads_term_pieces {ids : List NodeId} {t : Term} :
    Leads g selected (ids, .term t .pieces) mark ↔
      ∃ f ∈ t.factors, Leads g selected (ids ++ [f.id], .factor f f.manner) mark := by
  rw [leads_term]
  refine exists_getElem?_iff fun i f _ => ?_
  rw [Term.mannerAt_pieces]
  exact and_iff_right nofun

/-- The places of a list outside the part that is dropped. -/
theorem exists_getElem?_cut {α : Type} {keep dropped after : List α} {item : α}
    {P : Nat → α → Prop} :
    (∃ i a, (keep ++ (dropped ++ item :: after))[i]? = some a ∧
      ¬ (keep.length ≤ i ∧ i < keep.length + dropped.length) ∧ P i a) ↔
    (∃ i a, keep[i]? = some a ∧ P i a) ∨ P (keep.length + dropped.length) item ∨
      ∃ i a, after[i]? = some a ∧ P (keep.length + dropped.length + 1 + i) a := by
  constructor
  · rintro ⟨i, a, found, outside, holds⟩
    by_cases front : i < keep.length
    · rw [List.getElem?_append_left front] at found
      exact .inl ⟨i, a, found, holds⟩
    rw [List.getElem?_append_right (by omega), List.getElem?_append_right (by omega)] at found
    obtain ⟨j, rfl⟩ : ∃ j, i = keep.length + dropped.length + j :=
      ⟨i - (keep.length + dropped.length), by omega⟩
    rw [show keep.length + dropped.length + j - keep.length - dropped.length = j by omega] at found
    cases j with
    | zero =>
      cases found
      exact .inr (.inl holds)
    | succ j =>
      rw [List.getElem?_cons_succ] at found
      refine .inr (.inr ⟨j, a, found, ?_⟩)
      rwa [show keep.length + dropped.length + 1 + j = keep.length + dropped.length + (j + 1) by
        omega]
  · rintro (⟨i, a, found, holds⟩ | holds | ⟨i, a, found, holds⟩)
    · have front := (List.getElem?_eq_some_iff.mp found).1
      exact ⟨i, a, by rw [List.getElem?_append_left front, found], by omega, holds⟩
    · refine ⟨_, item, ?_, by omega, holds⟩
      rw [List.getElem?_append_right (by omega), List.getElem?_append_right (by omega)]
      simp
    · refine ⟨_, a, ?_, by omega, holds⟩
      rw [List.getElem?_append_right (by omega), List.getElem?_append_right (by omega),
        show keep.length + dropped.length + 1 + i - keep.length - dropped.length = i + 1 by omega,
        List.getElem?_cons_succ, found]

/-- A compacted term: a chain goes on to the factors kept, to the loop and to the factors behind
it. -/
theorem leads_term_compacted {ids : List NodeId} {t : Term} {keep dropped after : List Factor}
    {repetition : Factor}
    (factors : t.factors = keep ++ (dropped ++ repetition :: after))
    (absorbs : ∀ i, t.absorbs i = true ↔ keep.length ≤ i ∧ i < keep.length + dropped.length)
    (separates : ∀ i, t.separatesAt i = true → i = keep.length + dropped.length) :
    Leads g selected (ids, .term t .whole) mark ↔
      (∃ f ∈ keep, Leads g selected (ids ++ [f.id], .factor f f.manner) mark) ∨
      Leads g selected (ids ++ [repetition.id], .factor repetition
        (t.mannerAt .whole (keep.length + dropped.length) repetition)) mark ∨
      ∃ f ∈ after, Leads g selected (ids ++ [f.id], .factor f f.manner) mark := by
  have byItself : ∀ i f, i ≠ keep.length + dropped.length → t.mannerAt .whole i f = f.manner :=
    fun i f other => Term.mannerAt_eq_manner (mt (separates i) other) .whole f
  have outside : ∀ i, t.absorbs i = false ↔
      ¬ (keep.length ≤ i ∧ i < keep.length + dropped.length) := by
    intro i
    rw [← absorbs i, Bool.not_eq_true]
  simp only [leads_term, factors, true_imp_iff, outside]
  rw [exists_getElem?_cut]
  refine or_congr ?_ (or_congr Iff.rfl ?_)
  · refine exists_getElem?_iff fun i f found => ?_
    have front := (List.getElem?_eq_some_iff.mp found).1
    rw [byItself i f (by omega)]
  · refine exists_getElem?_iff fun i f _ => ?_
    rw [byItself _ f (by omega)]

/-- Brackets drawn by themselves: a chain goes on to what is in them. -/
theorem Factor.follows_bracketed {id : NodeId} {bracket : Bracket} {body : Expression}
    (whole : ∀ above, depth ≤ above.length → ∀ mark,
      mark ∈ ((body.layout above).track refer).marks ↔
        Leads g selected (above ++ [body.id], .expression body .whole) mark)
    (pieces : ∀ t ∈ body.terms, ∀ f ∈ t.factors, f.Follows g selected refer depth) :
    (Factor.bracketed id bracket body).Follows g selected refer depth := by
  intro above deep mark
  have deeper : depth ≤ (above ++ [id]).length := by
    rw [List.length_append]
    omega
  rw [leads_bracketed]
  cases parallel : (Factor.bracketed id bracket body).isParallel with
  | false =>
    rw [Factor.marks_bracketed above parallel, whole (above ++ [id]) deeper mark, Factor.manner,
      if_neg (by simp [parallel])]
    rfl
  | true =>
    have ways : ∀ t ∈ body.terms,
        (mark ∈ Factor.marksAll refer (above ++ [id] ++ [body.id] ++ [t.id]) t.factors.reverse ↔
          Leads g selected (above ++ [id] ++ [body.id] ++ [t.id], .term t .pieces) mark) := by
      intro t ht
      rw [leads_term_pieces, Factor.mem_marksAll_iff (fun f hf => pieces t ht f (by simpa using hf))
        (by simp only [List.length_append] at deeper ⊢; omega)]
      simp only [List.mem_reverse]
    rw [Factor.marks_parallel above parallel, Factor.manner, if_pos parallel, leads_expression,
      List.mem_flatMap]
    exact exists_congr fun t => and_congr_right (ways t)

/-- The marks of a term are those to which chains from it lead, whichever way it is compacted. -/
theorem Term.mem_marks_iff {t : Term} (each : ∀ f ∈ t.factors, f.Follows g selected refer depth)
    (nested : ∀ id body, .bracketed id .repetition body ∈ t.factors →
      (∀ above, depth ≤ above.length → ∀ mark,
        mark ∈ ((body.layout above).track refer).marks ↔
          Leads g selected (above ++ [body.id], .expression body .whole) mark) ∧
        ∀ inner ∈ body.terms, ∀ f ∈ inner.factors, f.Follows g selected refer depth)
    (deep : depth ≤ (above ++ [t.id]).length) :
    mark ∈ ((t.layout above).track refer).marks ↔
      Leads g selected (above ++ [t.id], .term t .whole) mark := by
  cases t.view with
  | plain plain =>
    rw [t.marks_plain above plain, Factor.mem_marksAll_iff each deep, leads_term]
    refine (exists_getElem?_iff fun i f _ => ?_).symm
    rw [Term.mannerAt_eq_manner (by simp [Term.separatesAt_eq_false plain])]
    exact and_iff_right fun _ => Term.absorbs_eq_false plain i
  | @fullMatch keep dropped after id body inner all decided terms =>
    obtain ⟨repetition, kept, -, behind⟩ := Term.mem_of_cut all
    have absorbs := Term.absorbs_fullMatch decided
    have separates : ∀ i, t.separatesAt i ≠ true := by simp [Term.separatesAt_fullMatch decided]
    have deeper : depth ≤ (above ++ [t.id] ++ [id]).length := by
      rw [List.length_append]
      omega
    have round := (nested id body repetition).1 _ deeper mark
    rw [Nat.add_sub_cancel] at absorbs
    rw [t.marks_fullMatch above all decided, List.mem_append, List.mem_append,
      Factor.mem_marksAll_iff (fun f hf => each f (kept f hf)) deep,
      Factor.mem_marksAll_iff (fun f hf => each f (behind f hf)) deep, round,
      leads_term_compacted all absorbs fun i separated => absurd separated (separates i),
      Term.mannerAt_eq_manner (separates _), Factor.manner_repetition terms, leads_bracketed]
    rfl
  | @separator keep dropped head tail after id body inner all decided terms split =>
    obtain ⟨repetition, kept, -, behind⟩ := Term.mem_of_cut all
    have pieces : ∀ f ∈ tail ++ head, f.Follows g selected refer depth := fun f hf =>
      (nested id body repetition).2 inner (by simp [terms]) f (by
        rw [split]
        simpa [or_comm] using hf)
    have absorbs := Term.absorbs_separator decided
    have separates := Term.separatesAt_separator decided
    have deeper : depth ≤ (above ++ [t.id] ++ [id] ++ [body.id] ++ [inner.id]).length := by
      simp only [List.length_append] at deep ⊢
      omega
    rw [Nat.add_sub_cancel] at absorbs
    rw [t.marks_separator above all terms split decided, List.mem_append, List.mem_append,
      Factor.mem_marksAll_iff (fun f hf => each f (kept f hf)) deep,
      Factor.mem_marksAll_iff (fun f hf => each f (behind f hf)) deep,
      Factor.mem_marksAll_iff pieces deeper,
      leads_term_compacted all absorbs fun i => (separates i).mp,
      Term.mannerAt_eq_pieces ((separates _).mpr rfl), leads_bracketed, leads_expression]
    refine or_congr Iff.rfl (or_congr ?_ Iff.rfl)
    simp only [terms, List.mem_singleton, exists_eq_left, leads_term_pieces, split]
    exact exists_congr fun f => and_congr_left' (by simp [or_comm])

/-- **The marks of a part are those to which chains from it lead**, if this holds of references. -/
theorem Parts.mem_marks_iff (h : Follows g selected refer depth) :
    (∀ e : Expression, ∀ above, depth ≤ above.length → ∀ mark,
      mark ∈ ((e.layout above).track refer).marks ↔
        Leads g selected (above ++ [e.id], .expression e .whole) mark) ∧
    (∀ t : Term, ∀ above, depth ≤ above.length → ∀ mark,
      mark ∈ ((t.layout above).track refer).marks ↔
        Leads g selected (above ++ [t.id], .term t .whole) mark) ∧
    ∀ f : Factor, f.Follows g selected refer depth := by
  have deeper : ∀ (above : List NodeId) (id : NodeId), depth ≤ above.length →
      depth ≤ (above ++ [id]).length := by
    intro above id deep
    rw [List.length_append]
    omega
  refine Parts.induction_nested ?expression ?term ?identifier ?literal ?bracketed
  case expression =>
    intro e ih above deep mark
    rw [e.marks_layout, leads_expression, List.mem_flatMap]
    exact exists_congr fun t => and_congr_right fun ht => ih t ht _ (deeper above e.id deep) mark
  case term =>
    intro t ih nested above deep mark
    exact Term.mem_marks_iff ih (fun id body repetition => nested id .repetition body repetition)
      (deeper above t.id deep)
  case identifier =>
    intro id name above deep mark
    have key : above ++ [id, name.id] = above ++ [id] ++ [name.id] := by simp
    rw [Factor.layout_identifier, key, leads_identifier]
    split
    · refine h name.text ⟨above ++ [id] ++ [name.id]⟩ ?_ mark
      simp only [PathKey.depth, List.length_append, List.length_singleton]
      omega
    · rw [Layout.track, Track.marks_terminal, List.mem_singleton]
      rfl
  case literal =>
    intro id l above deep mark
    have key : above ++ [id, l.id] = above ++ [id] ++ [l.id] := by simp
    rw [Factor.layout_literal, key, leads_literal, Layout.track, Track.marks_terminal,
      List.mem_singleton]
    rfl
  case bracketed =>
    intro id bracket body ih pieces
    exact Factor.follows_bracketed ih pieces

end Layout

/-! ### References and diagrams -/

namespace Grammar

variable {g : Grammar} {selected : PathKey → Bool}

/-- A chain to a reference that stays closed ends there. -/
theorem leads_closed {path : PathKey} {name : String}
    (closed : ¬ ∃ p, g.Opens selected path name p) (mark : PathKey × Mark) :
    Leads g selected (path.ids, .reference name) mark ↔ mark = (path, .closed name) := by
  obtain ⟨key, what⟩ := mark
  rw [leads_reference]
  constructor
  · rintro (⟨rfl, shown⟩ | ⟨p, opens, -⟩)
    · cases what with
      | terminal text => cases shown
      | closed name' => rw [shown.1]
      | opened name' => exact absurd shown.2 closed
    · exact absurd ⟨p, opens⟩ closed
  · rintro ⟨⟩
    exact .inl ⟨rfl, rfl, closed⟩

/-- A chain to a reference that is opened ends there or goes on in the production. -/
theorem leads_opened {path : PathKey} {name : String} {p : Production}
    (opens : g.Opens selected path name p) (mark : PathKey × Mark) :
    Leads g selected (path.ids, .reference name) mark ↔ mark = (path, .opened name) ∨
      Leads g selected (path.ids ++ [p.body.id], .expression p.body .whole) mark := by
  obtain ⟨key, what⟩ := mark
  rw [leads_reference]
  constructor
  · rintro (⟨rfl, shown⟩ | ⟨q, opens', rest⟩)
    · cases what with
      | terminal text => cases shown
      | closed name' => exact absurd ⟨p, opens⟩ shown.2
      | opened name' =>
        rw [shown.1]
        exact .inl rfl
    · cases opens.2.2.symm.trans opens'.2.2
      exact .inr rest
  · rintro (⟨⟨⟩⟩ | rest)
    · exact .inl ⟨rfl, rfl, p, opens⟩
    · exact .inr ⟨p, opens, rest⟩

/-- **The marks of a reference are those to which chains from it lead**, if enough references may be
opened inside one another. -/
theorem mem_marks_shown_iff {levels : Nat} {name : String} {path : PathKey}
    (room : maxDepth ≤ levels + path.depth) (mark : PathKey × Mark) :
    mark ∈ (g.shown selected levels name path).marks ↔
      Leads g selected (path.ids, .reference name) mark := by
  induction levels generalizing name path mark with
  | zero =>
    have closed : ¬ ∃ p, g.Opens selected path name p := by
      rintro ⟨p, short, -⟩
      omega
    rw [shown, Track.marks_nonTerminal, List.mem_singleton, leads_closed closed]
  | succ levels ih =>
    unfold shown
    by_cases opened : path.depth < maxDepth ∧ selected path = true
    · rw [if_pos opened]
      cases found : g.find? name with
      | none =>
        have closed : ¬ ∃ p, g.Opens selected path name p := by
          rintro ⟨p, -, -, found'⟩
          cases found.symm.trans found'
        rw [Track.marks_nonTerminal, List.mem_singleton, leads_closed closed]
      | some p =>
        have follows : Follows g selected (g.shown selected levels) path.depth := by
          intro name' path' deeper
          exact ih (by omega)
        have inside := (Parts.mem_marks_iff follows).1 p.body path.ids (Nat.le_refl _) mark
        rw [Track.marks_group, List.mem_cons, inside, leads_opened ⟨opened.1, opened.2, found⟩]
    · have closed : ¬ ∃ p, g.Opens selected path name p := by
        rintro ⟨p, short, chosen, -⟩
        exact opened ⟨short, chosen⟩
      rw [if_neg opened, Track.marks_nonTerminal, List.mem_singleton, leads_closed closed]

end Grammar

/-- A chain ends at a terminal or a reference. -/
def Place.isEnd : Place → Bool
  | .reference _ | .terminal _ => true
  | _ => false

/-- Something is shown at every end of a chain and nowhere else. -/
theorem Place.exists_shows_iff {g : Grammar} {selected : PathKey → Bool} {key : PathKey}
    {place : Place} : (∃ what, place.Shows g selected key what) ↔ place.isEnd = true := by
  cases place with
  | terminal text => exact ⟨fun _ => rfl, fun _ => ⟨.terminal text, rfl⟩⟩
  | reference name =>
    refine ⟨fun _ => rfl, fun _ => ?_⟩
    by_cases opened : ∃ p, g.Opens selected key name p
    · exact ⟨.opened name, rfl, opened⟩
    · exact ⟨.closed name, rfl, opened⟩
  | expression e manner => simp [Shows, isEnd]
  | term t manner => simp [Shows, isEnd]
  | factor f manner => simp [Shows, isEnd]

/-- The chain of ids leads from the expression of the start to the place. -/
def Grammar.Chain (g : Grammar) (selected : PathKey → Bool) (start : Production) (ids : List NodeId)
    (place : Place) : Prop :=
  Relation.ReflTransGen (Place.Step g selected)
    ([start.id, start.body.id], .expression start.body .whole) (ids, place)

/-- **The keys of a diagram are its chains.** In the diagram of an accepted text no two nodes have
one key, whatever is opened. The keys are the chains of ids from the start to a terminal or a
reference, and each node shows what its chain leads to. -/
theorem Grammar.keys_diagram {text : String} {g : Grammar} (read : Grammar.ofString? text = .ok g)
    {start : Option String} {expanded : List PathKey} {d : Diagram}
    (drawn : (g.diagram start expanded).result = .ok d) :
    ∃ p, g.startProduction start = .ok p ∧
      (d.root.nodes.filterMap Track.path?).Nodup ∧
      (∀ key, key ∈ d.root.nodes.filterMap Track.path? ↔
        ∃ place, place.isEnd = true ∧ g.Chain (· ∈ expanded) p key.ids place) ∧
      ∀ key what, (∃ node ∈ d.root.nodes, node.mark? = some (key, what)) ↔
        ∃ place, g.Chain (· ∈ expanded) p key.ids place ∧
          place.Shows g (· ∈ expanded) key what := by
  rw [diagram_eq] at drawn
  obtain ⟨p, started, rfl⟩ := draw_eq_ok drawn
  obtain ⟨tokens, last, scanned, tree⟩ := ofString?_eq_ok_iff.mp read
  have numbered : ∀ q ∈ g.productions, q.body.Numbered := fun q hq =>
    numbered_body tree.numbered hq
  let selected (key : PathKey) := decide (key ∈ expanded)
  let track := (p.body.layout [p.id]).track (g.shown selected maxDepth)
  have rooted : Rooted ([p.id] ++ [p.body.id]) track.marks :=
    (Parts.rooted_layout (rooted_shown numbered selected maxDepth)).1 p.body
      (numbered p (mem_of_startProduction started)) [p.id]
  have follows : Follows g selected (g.shown selected maxDepth) 0 := fun _ _ _ =>
    mem_marks_shown_iff (Nat.le_add_right _ _)
  have leads := (Parts.mem_marks_iff follows).1 p.body [p.id] (Nat.zero_le _)
  have marks : (Track.sequence [track]).marks = track.marks := by simp
  refine ⟨p, started, ?_, ?_, ?_⟩
  · rw [← Track.marks_keys, marks]
    exact rooted.nodup
  · intro key
    rw [← Track.marks_keys, marks]
    constructor
    · intro member
      obtain ⟨⟨key, what⟩, marked, rfl⟩ := List.mem_map.mp member
      obtain ⟨place, chain, shown⟩ := (leads (key, what)).mp marked
      exact ⟨place, Place.exists_shows_iff.mp ⟨what, shown⟩, chain⟩
    · rintro ⟨place, last, chain⟩
      obtain ⟨what, shown⟩ : ∃ what, place.Shows g selected key what :=
        Place.exists_shows_iff.mpr last
      exact List.mem_map.mpr ⟨(key, what), (leads (key, what)).mpr ⟨place, chain, shown⟩, rfl⟩
  · intro key what
    rw [← List.mem_filterMap]
    change (key, what) ∈ (Track.sequence [track]).marks ↔ _
    rw [marks]
    exact leads (key, what)

set_option maxRecDepth 4000 in
/-- The first of two occurrences of a name is absorbed, and the second one opened. -/
theorem Grammar.keys_diagram_absorbed :
    let g : Grammar := ⟨1, [⟨2, ⟨3, "A"⟩, ⟨4, [⟨5, [.identifier 6 ⟨7, "B"⟩, .bracketed 8 .repetition
      ⟨9, [⟨10, [.identifier 11 ⟨12, "B"⟩]⟩]⟩]⟩]⟩⟩,
      ⟨13, ⟨14, "B"⟩, ⟨15, [⟨16, [.identifier 17 ⟨18, "b"⟩]⟩]⟩⟩]⟩
    let key : PathKey := ⟨[2, 4, 5, 8, 9, 10, 11, 12]⟩
    let d : Diagram := ⟨"A", .sequence [.oneOrMore
      (.group "B" key (.terminal "b" ⟨[2, 4, 5, 8, 9, 10, 11, 12, 15, 16, 17, 18]⟩)) none]⟩
    Grammar.ofString? "A = B \x7bB\x7d . B = b ." = .ok g ∧ (g.diagram none [key]).result = .ok d ∧
      ∃ p, g.startProduction none = .ok p ∧
        (d.root.nodes.filterMap Track.path?).Nodup ∧
        (∀ key', key' ∈ d.root.nodes.filterMap Track.path? ↔
          ∃ place, place.isEnd = true ∧ g.Chain (· ∈ [key]) p key'.ids place) ∧
        ∀ key' what, (∃ node ∈ d.root.nodes, node.mark? = some (key', what)) ↔
          ∃ place, g.Chain (· ∈ [key]) p key'.ids place ∧
            place.Shows g (· ∈ [key]) key' what := by
  intro g key d
  have read : Grammar.ofString? "A = B \x7bB\x7d . B = b ." = .ok g := by cbv
  have drawn : (g.diagram none [key]).result = .ok d := by
    rw [diagram_eq]
    cbv
  exact ⟨read, drawn, keys_diagram read drawn⟩

end Railroad
