import Railroad.Proofs.CanonicalText
import Railroad.Proofs.Codec
import Railroad.Proofs.Opening

/-!
Brackets inside brackets, and how deep the diagram of them is nested.

* `Factor.nested`, `Grammar.nested`: a name inside any number of round brackets, by itself and as the
  only production of a grammar.
* `Grammar.ofString?_nested`: the text with these brackets is accepted up to the limit of the
  notation.
* `Grammar.exists_diagram_nested`: each pair of brackets nests the diagram by two levels.
-/

namespace Railroad

/-- A name inside `n` pairs of round brackets. -/
def Factor.nested : Nat → Factor
  | 0 => .identifier 0 ⟨0, "b"⟩
  | n + 1 => .bracketed 0 .group ⟨0, [⟨0, [nested n]⟩]⟩

/-- The grammar whose only production is a name inside `n` pairs of round brackets. -/
def Grammar.nested (n : Nat) : Grammar :=
  ⟨0, [⟨0, ⟨0, "A"⟩, ⟨0, [⟨0, [.nested n]⟩]⟩⟩]⟩

/-! ### Its text -/

theorem Factor.fits_nested {n m : Nat} (h : n ≤ m) : (nested n).Fits m := by
  induction n generalizing m with
  | zero => exact .identifier
  | succ n ih =>
    obtain ⟨m, rfl⟩ := Nat.exists_eq_add_of_le' h
    have inside : (nested n).Fits (m + n) := ih (Nat.le_add_left n m)
    exact .bracketed (.intro (by simp) (by simpa [Term.fits_iff] using inside))

/-- A name of one letter can be read. -/
theorem Token.Kind.readable_letter {name : String} {c : Char} (single : name.toList = [c])
    (letter : Text.isAlphabetic c = true) : (identifier name).Readable := by
  rw [Readable, single]
  exact ⟨by simp, List.forall_mem_singleton.mpr letter⟩

theorem Factor.readable_nested (n : Nat) : ∀ k ∈ (nested n).kinds, k.Readable := by
  induction n with
  | zero =>
    rw [nested, kinds, List.forall_mem_singleton]
    exact Token.Kind.readable_letter (c := 'b') rfl (by decide)
  | succ n ih =>
    have inside : (nested (n + 1)).kinds =
        .opening .group :: ((nested n).kinds ++ [.closing .group]) := by
      simp [nested, kinds, Expression.kinds_eq, Term.kinds_eq_flatMap]
    rw [inside, List.forall_mem_cons, List.forall_mem_append, List.forall_mem_singleton]
    exact ⟨trivial, ih, trivial⟩

theorem Factor.text_nested (n : Nat) :
    (nested n).text = String.ofList (List.replicate n '(' ++ 'b' :: List.replicate n ')') := by
  induction n with
  | zero => rfl
  | succ n ih =>
    have inside : (nested (n + 1)).text = "(" ++ (nested n).text ++ ")" := by
      simp [nested, text, Expression.text, Term.texts, Term.text, Factor.texts, Bracket.opener,
        Bracket.closer]
    apply String.ext
    rw [inside, ih, List.replicate_succ, List.replicate_succ']
    simp

theorem Factor.size_nested (n : Nat) : (nested n).size = 3 * n + 2 := by
  induction n with
  | zero => rfl
  | succ n ih =>
    simp only [nested, size, Expression.size, Term.sizeAll, Term.size, Factor.sizeAll, ih]
    omega

namespace Grammar

theorem size_nested (n : Nat) : (nested n).size = 3 * n + 7 := by
  simp only [nested, size, Production.sizeAll, Production.size, Expression.size, Term.sizeAll,
    Term.size, Factor.sizeAll, Factor.size_nested]
  omega

theorem text_nested (n : Nat) :
    (nested n).text = "A = " ++
      String.ofList (List.replicate n '(' ++ 'b' :: List.replicate n ')') ++ " ." := by
  simp [nested, text, Production.text, Expression.text, Term.texts, Term.text, Factor.texts,
    Factor.text_nested]

/-- **Nested brackets are accepted** up to the limit of the notation. -/
theorem ofString?_nested {n : Nat} (h : n ≤ maxNesting) :
    ofString? ("A = " ++
      String.ofList (List.replicate n '(' ++ 'b' :: List.replicate n ')') ++ " .") =
      .ok ((nested n).number 0) := by
  have fits : (nested n).Fits maxNesting := by
    simpa [Fits, nested, Expression.fits_iff, Term.fits_iff] using Factor.fits_nested h
  have readable : ∀ k ∈ (nested n).kinds, k.Readable := by
    have tokens : (nested n).kinds =
        .identifier "A" :: .equals :: ((Factor.nested n).kinds ++ [.period]) := by
      simp [nested, kinds, Production.kinds, Expression.kinds_eq, Term.kinds_eq_flatMap]
    rw [tokens, List.forall_mem_cons, List.forall_mem_cons, List.forall_mem_append,
      List.forall_mem_singleton]
    have name : (Token.Kind.identifier "A").Readable :=
      Token.Kind.readable_letter (c := 'A') rfl (by decide)
    exact ⟨name, trivial, Factor.readable_nested n, trivial⟩
  rw [← text_nested]
  exact ofString?_text fits readable

end Grammar

/-! ### Its diagram -/

/-- A sequence of one track is nested deeper than the track by an array and an object. -/
theorem Track.nesting_sequence_singleton (t : Track) :
    (sequence [t]).toJson.nesting = t.toJson.nesting + 2 := by
  simp [toJson_eq (sequence [t]), toJson.tagged, kind, fields, Json.ofFields, Json.ofString,
    Json.nesting, Json.nestingFields, Json.nestingItems]

/-- A pair of round brackets is a sequence of what is between them. -/
theorem Factor.layout_nested_succ (n m : Nat) (above : List NodeId) :
    ∃ note, ((nested (n + 1)).number m).layout above =
      .sequence [.noted note (.joined [((nested n).number (m + 3)).layout
        (above ++ [m + 1] ++ [m + 2] ++ [m + 3])])] := by
  have parts : (nested (n + 1)).number m =
      .bracketed (m + 1) .group ⟨m + 2, [⟨m + 3, [(nested n).number (m + 3)]⟩]⟩ := rfl
  rw [parts, layout_group, Expression.layout_eq]
  -- A term of one factor is not compacted.
  have arranged := Term.layout_eq (above ++ [m + 1] ++ [m + 2]) ⟨m + 3, [(nested n).number (m + 3)]⟩
  exact ⟨_, congrArg (fun inside => Layout.sequence [inside]) arranged⟩

theorem Factor.layout_nested_zero (m : Nat) (above : List NodeId) :
    ((nested 0).number m).layout above = .terminal "b" ⟨above ++ [m + 1, m + 2]⟩ := by
  have small : Identifier.isReference ⟨m + 2, "b"⟩ = false := by
    show startsUppercase "b" = false
    decide
  rw [nested, number, layout_identifier, small]
  rfl

theorem Factor.references_nested (n m : Nat) (above : List NodeId) :
    (((nested n).number m).layout above).references = [] := by
  induction n generalizing m above with
  | zero =>
    rw [layout_nested_zero]
    rfl
  | succ n ih =>
    obtain ⟨note, layout⟩ := layout_nested_succ n m above
    rw [layout]
    simp [Layout.references, Layout.referencesAll, ih]

theorem Factor.nesting_nested (refer : String → PathKey → Track) (n m : Nat)
    (above : List NodeId) :
    ((((nested n).number m).layout above).track refer).toJson.nesting = 2 * n + 1 := by
  induction n generalizing m above with
  | zero =>
    rw [layout_nested_zero]
    rfl
  | succ n ih =>
    obtain ⟨note, layout⟩ := layout_nested_succ n m above
    rw [layout]
    simp only [Layout.track, Layout.trackAll, Track.joined, Track.nesting_sequence_singleton, ih]
    omega

/-- **Each pair of brackets nests the diagram by two levels.** -/
theorem Grammar.exists_diagram_nested (n : Nat) :
    ∃ d, (((nested n).number 0).diagram none []).result = .ok d ∧
      d.toJson.nesting = 2 * n + 4 := by
  let p : Production := ⟨2, ⟨3, "A"⟩, ⟨4, [⟨5, [(Factor.nested n).number 5]⟩]⟩⟩
  let inner := ((Factor.nested n).number 5).layout [2, 4, 5]
  let shown : String → PathKey → Track := fun _ _ => .skip
  have layout : ∃ note, p.body.layout [p.id] = .noted note (.joined [inner]) := ⟨_, rfl⟩
  obtain ⟨note, layout⟩ := layout
  have track : (p.body.layout [p.id]).track shown = inner.track shown := by
    rw [layout]
    simp [Layout.track, Layout.trackAll, Track.joined]
  -- No reference is drawn, so it does not matter what references are drawn as.
  have drawn : ((p.body.layout [p.id]).draw (((nested n).number 0).drawReference
      (fun key => decide (key ∈ [])) maxDepth)).result = .ok (inner.track shown) := by
    rw [← track]
    refine Layout.result_draw _ fun r hr => ?_
    rw [layout] at hr
    simp [Layout.references, Layout.referencesAll, inner, Factor.references_nested] at hr
  refine ⟨⟨"A", .sequence [inner.track shown]⟩, ?_, ?_⟩
  · rw [diagram_eq]
    exact result_draw_eq_ok.mpr ⟨p, _, rfl, drawn, rfl⟩
  · rw [Diagram.nesting_toJson, Track.nesting_sequence_singleton, Factor.nesting_nested]

end Railroad
