import Railroad.Proofs.Compaction
import Railroad.Proofs.Parts

/-!
Renaming the ids of a grammar.

`mapIds φ` puts the id `φ i` in the place of each id `i`, in the parts of a grammar and in layouts.
Ids are not compared, ordered or computed with while a term is compacted and laid out; they only get
into keys.

* `Parts.text_mapIds`: renaming leaves texts alone.
* `Compaction.of_mapIds`: it leaves the decisions on terms alone.
* `Expression.layout_mapIds`: the layout of a renamed expression is the renamed layout.
-/

namespace Railroad

/-! ### Parts of a grammar -/

mutual

/-- The expression with the ids renamed. -/
def Expression.mapIds (φ : NodeId → NodeId) : Expression → Expression
  | ⟨id, terms⟩ => ⟨φ id, Term.mapIdsAll φ terms⟩

/-- The term with the ids renamed. -/
def Term.mapIds (φ : NodeId → NodeId) : Term → Term
  | ⟨id, factors⟩ => ⟨φ id, Factor.mapIdsAll φ factors⟩

/-- The factor with the ids renamed. -/
def Factor.mapIds (φ : NodeId → NodeId) : Factor → Factor
  | .identifier id name => .identifier (φ id) ⟨φ name.id, name.text⟩
  | .literal id l => .literal (φ id) ⟨φ l.id, l.text⟩
  | .bracketed id bracket body => .bracketed (φ id) bracket (body.mapIds φ)

def Term.mapIdsAll (φ : NodeId → NodeId) : List Term → List Term
  | [] => []
  | t :: rest => t.mapIds φ :: Term.mapIdsAll φ rest

def Factor.mapIdsAll (φ : NodeId → NodeId) : List Factor → List Factor
  | [] => []
  | f :: rest => f.mapIds φ :: Factor.mapIdsAll φ rest

end

/-- The name with its id renamed. -/
def Identifier.mapIds (φ : NodeId → NodeId) (name : Identifier) : Identifier :=
  ⟨φ name.id, name.text⟩

/-- The literal with its id renamed. -/
def Literal.mapIds (φ : NodeId → NodeId) (l : Literal) : Literal :=
  ⟨φ l.id, l.text⟩

/-- The production with the ids renamed. -/
def Production.mapIds (φ : NodeId → NodeId) (p : Production) : Production :=
  ⟨φ p.id, p.name.mapIds φ, p.body.mapIds φ⟩

/-- The grammar with the ids renamed. -/
def Grammar.mapIds (φ : NodeId → NodeId) (g : Grammar) : Grammar :=
  ⟨φ g.id, g.productions.map (Production.mapIds φ)⟩

section Parts

variable {φ : NodeId → NodeId}

theorem Term.mapIdsAll_eq_map (terms : List Term) :
    Term.mapIdsAll φ terms = terms.map (Term.mapIds φ) := by
  induction terms with
  | nil => rfl
  | cons t rest ih => rw [mapIdsAll, ih, List.map_cons]

theorem Factor.mapIdsAll_eq_map (factors : List Factor) :
    Factor.mapIdsAll φ factors = factors.map (Factor.mapIds φ) := by
  induction factors with
  | nil => rfl
  | cons f rest ih => rw [mapIdsAll, ih, List.map_cons]

@[simp] theorem Expression.terms_mapIds (e : Expression) :
    (e.mapIds φ).terms = e.terms.map (Term.mapIds φ) := by
  obtain ⟨id, terms⟩ := e
  rw [mapIds, Term.mapIdsAll_eq_map]

@[simp] theorem Expression.id_mapIds (e : Expression) : (e.mapIds φ).id = φ e.id := by
  obtain ⟨id, terms⟩ := e
  rw [mapIds]

@[simp] theorem Term.factors_mapIds (t : Term) :
    (t.mapIds φ).factors = t.factors.map (Factor.mapIds φ) := by
  obtain ⟨id, factors⟩ := t
  rw [mapIds, Factor.mapIdsAll_eq_map]

@[simp] theorem Term.id_mapIds (t : Term) : (t.mapIds φ).id = φ t.id := by
  obtain ⟨id, factors⟩ := t
  rw [mapIds]

@[simp] theorem Production.name_mapIds (p : Production) :
    (p.mapIds φ).name.text = p.name.text := rfl

/-- **Renaming leaves texts alone.** -/
theorem Parts.text_mapIds (φ : NodeId → NodeId) :
    (∀ e : Expression, (e.mapIds φ).text = e.text) ∧ (∀ t : Term, (t.mapIds φ).text = t.text) ∧
      ∀ f : Factor, (f.mapIds φ).text = f.text :=
  Parts.induction
    { expression := by
        rintro ⟨id, terms⟩ ih
        have texts : (terms.map (Term.mapIds φ)).map Term.text = terms.map Term.text := by
          rw [List.map_map]
          exact List.map_congr_left ih
        rw [Expression.mapIds, Expression.text, Expression.text, Term.texts_eq_map,
          Term.texts_eq_map, Term.mapIdsAll_eq_map, texts]
      term := by
        rintro ⟨id, factors⟩ ih
        have texts : (factors.map (Factor.mapIds φ)).map Factor.text = factors.map Factor.text := by
          rw [List.map_map]
          exact List.map_congr_left ih
        rw [Term.mapIds, Term.text, Term.text, Factor.texts_eq_map, Factor.texts_eq_map,
          Factor.mapIdsAll_eq_map, texts]
      identifier := fun _ _ => rfl
      literal := fun _ _ => rfl
      bracketed := by
        intro id bracket body ih
        rw [Factor.mapIds, Factor.text, Factor.text, ih] }

@[simp] theorem Factor.text_mapIds (f : Factor) : (f.mapIds φ).text = f.text :=
  (Parts.text_mapIds φ).2.2 f

@[simp] theorem Factor.isTerminal_mapIds (f : Factor) : (f.mapIds φ).isTerminal = f.isTerminal := by
  cases f with
  | identifier id name => rfl
  | literal id l => rfl
  | bracketed id bracket body =>
    have text := Factor.text_mapIds (φ := φ) (.bracketed id bracket body)
    simp only [mapIds] at text ⊢
    simp only [isTerminal, text]

@[simp] theorem Factor.sameSymbol_mapIds (a b : Factor) :
    (a.mapIds φ).sameSymbol (b.mapIds φ) = a.sameSymbol b := by
  simp [sameSymbol]

/-- The terms of an expression are all terminal, renamed or not. -/
theorem Expression.all_isTerminal_mapIds (e : Expression) :
    (e.mapIds φ).terms.all (·.factors.all Factor.isTerminal) =
      e.terms.all (·.factors.all Factor.isTerminal) := by
  simp [List.all_map, Function.comp_def]

end Parts

/-! ### Decisions on terms -/

section Compaction

variable {φ : NodeId → NodeId}

/-- The cut with the ids renamed. -/
def RepetitionSplit.mapIds (φ : NodeId → NodeId) (split : RepetitionSplit) : RepetitionSplit :=
  ⟨split.before.map (Factor.mapIds φ), split.body.mapIds φ, split.after.map (Factor.mapIds φ)⟩

/-- A renamed term is cut in the same place. -/
theorem splitAtRepetition_mapIds (factors : List Factor) :
    splitAtRepetition (factors.map (Factor.mapIds φ)) =
      (splitAtRepetition factors).map (RepetitionSplit.mapIds φ) := by
  induction factors with
  | nil => rfl
  | cons f rest ih =>
    cases f with
    | identifier id name | literal id l =>
      simp only [List.map_cons, Factor.mapIds, splitAtRepetition, ih, Option.map_map]
      rfl
    | bracketed id bracket body =>
      cases bracket with
      | repetition => rfl
      | group | option =>
        simp only [List.map_cons, Factor.mapIds, splitAtRepetition, ih, Option.map_map]
        rfl

theorem matchedSuffix_mapIds (outer inner : List Factor) :
    matchedSuffix (outer.map (Factor.mapIds φ)) (inner.map (Factor.mapIds φ)) =
      matchedSuffix outer inner := by
  rw [matchedSuffix, matchedSuffix, ← List.map_reverse, ← List.map_reverse, List.zip_map,
    List.takeWhile_map, List.length_map]
  simp [Function.comp_def]

theorem Expression.singleTerm?_mapIds (e : Expression) :
    (e.mapIds φ).singleTerm? = e.singleTerm?.map (Term.mapIds φ) := by
  obtain ⟨id, _ | ⟨t, _ | ⟨u, rest⟩⟩⟩ := e <;> rfl

/-- **Renaming leaves decisions alone.** -/
theorem Compaction.of_mapIds (factors : List Factor) :
    Compaction.of (factors.map (Factor.mapIds φ)) = Compaction.of factors := by
  simp only [Compaction.of, List.length_map, splitAtRepetition_mapIds]
  cases splitAtRepetition factors with
  | none => rfl
  | some split =>
    simp only [Option.map_some, RepetitionSplit.mapIds, Expression.singleTerm?_mapIds]
    cases split.body.singleTerm? with
    | none => rfl
    | some inner =>
      simp only [Option.map_some, Term.factors_mapIds, Compaction.ofSingleBody,
        matchedSuffix_mapIds, List.length_map, ← List.map_take, List.all_map, Function.comp_def,
        Factor.isTerminal_mapIds]

end Compaction

/-! ### Layouts -/

/-- The key with the ids renamed. -/
def PathKey.mapIds (φ : NodeId → NodeId) (key : PathKey) : PathKey :=
  ⟨key.ids.map φ⟩

@[simp] theorem PathKey.depth_mapIds (φ : NodeId → NodeId) (key : PathKey) :
    (key.mapIds φ).depth = key.depth :=
  List.length_map _

/-- The note with the ids renamed. -/
def LayoutNote.mapIds (φ : NodeId → NodeId) : LayoutNote → LayoutNote
  | .term t decision => .term (t.mapIds φ) decision
  | .parallel body => .parallel (body.mapIds φ)

mutual

/-- The layout with the ids renamed. -/
def Layout.mapIds (φ : NodeId → NodeId) : Layout → Layout
  | .terminal text path => .terminal text (path.mapIds φ)
  | .reference name path => .reference name (path.mapIds φ)
  | .skip => .skip
  | .sequence items => .sequence (Layout.mapIdsAll φ items)
  | .joined items => .joined (Layout.mapIdsAll φ items)
  | .returned items => .returned (Layout.mapIdsAll φ items)
  | .choice options => .choice (Layout.mapIdsAll φ options)
  | .optional item => .optional (item.mapIds φ)
  | .zeroOrMore item => .zeroOrMore (item.mapIds φ)
  | .oneOrMore item => .oneOrMore (item.mapIds φ)
  | .loop item back => .loop (item.mapIds φ) (back.mapIds φ)
  | .compacted round before after =>
    .compacted (round.mapIds φ) (Layout.mapIdsAll φ before) (Layout.mapIdsAll φ after)
  | .noted note item => .noted (note.mapIds φ) (item.mapIds φ)

def Layout.mapIdsAll (φ : NodeId → NodeId) : List Layout → List Layout
  | [] => []
  | item :: rest => item.mapIds φ :: Layout.mapIdsAll φ rest

end

section Layout

variable {φ : NodeId → NodeId}

theorem Layout.mapIdsAll_eq_map (items : List Layout) :
    Layout.mapIdsAll φ items = items.map (Layout.mapIds φ) := by
  induction items with
  | nil => rfl
  | cons item rest ih => rw [mapIdsAll, ih, List.map_cons]

/-- The layouts of a term with the ids renamed. -/
def Alternative.mapIds (φ : NodeId → NodeId) (a : Alternative) : Alternative :=
  ⟨a.whole.mapIds φ, a.pieces.map (Layout.mapIds φ)⟩

/-- The layouts of a factor with the ids renamed. -/
def Sketch.mapIds (φ : NodeId → NodeId) (s : Sketch) : Sketch :=
  ⟨s.whole.mapIds φ, s.alternatives.map (Alternative.mapIds φ)⟩

theorem Alternative.either_mapIds (alternatives : List Alternative) :
    either (alternatives.map (Alternative.mapIds φ)) = (either alternatives).mapIds φ := by
  rcases alternatives with _ | ⟨first, _ | ⟨second, rest⟩⟩
  · rfl
  · rfl
  · simp [either, Layout.mapIds, Layout.mapIdsAll_eq_map, mapIds]

theorem Alternative.repeated_mapIds (body : Expression) (alternatives : List Alternative) :
    repeated (body.mapIds φ) (alternatives.map (Alternative.mapIds φ)) =
      (repeated body alternatives).mapIds φ := by
  have terms : (body.mapIds φ).terms.length = body.terms.length := by simp
  rw [repeated, repeated, terms, body.all_isTerminal_mapIds]
  split
  · simp [Layout.mapIds, Layout.mapIdsAll_eq_map, LayoutNote.mapIds, mapIds]
  · rw [either_mapIds, Layout.mapIds]

theorem Alternative.bracketed_mapIds (bracket : Bracket) (body : Expression)
    (alternatives : List Alternative) :
    bracketed bracket (body.mapIds φ) (alternatives.map (Alternative.mapIds φ)) =
      (bracketed bracket body alternatives).mapIds φ := by
  cases bracket with
  | group => simp [bracketed, either_mapIds, Layout.mapIds, Layout.mapIdsAll_eq_map]
  | option => simp [bracketed, either_mapIds, Layout.mapIds]
  | repetition => exact repeated_mapIds body alternatives

/-- The arrangement of a renamed term is the renamed arrangement, whatever the decision. -/
theorem Sketch.arrange_mapIds (t : Term) (sketches : List Sketch) :
    arrange (t.mapIds φ) (sketches.map (Sketch.mapIds φ)) = (arrange t sketches).mapIds φ := by
  have pieces : (sketches.map (Sketch.mapIds φ)).map Sketch.whole =
      (sketches.map Sketch.whole).map (Layout.mapIds φ) := by
    simp [mapIds, Function.comp_def]
  have inside : ∀ index : Nat, (((sketches.map (Sketch.mapIds φ))[index]?).map
      Sketch.alternatives).getD [] =
      (((sketches[index]?).map Sketch.alternatives).getD []).map (Alternative.mapIds φ) := by
    intro index
    rw [List.getElem?_map]
    cases sketches[index]? <;> rfl
  simp only [arrange, Term.factors_mapIds, Compaction.of_mapIds, pieces, inside]
  cases Compaction.of t.factors with
  | fullMatch index matched =>
    simp only [Layout.mapIds, LayoutNote.mapIds, Layout.mapIdsAll_eq_map, List.map_take,
      List.map_drop, Alternative.either_mapIds]
  | separator index matched head =>
    simp [Layout.mapIds, LayoutNote.mapIds, Layout.mapIdsAll_eq_map, List.map_take, List.map_drop,
      List.map_flatMap, List.flatMap_map, Alternative.mapIds]
  | _ => simp only [Layout.mapIds, LayoutNote.mapIds, Layout.mapIdsAll_eq_map]

/-- **The layouts of renamed parts are the renamed layouts.** -/
theorem Parts.layouts_mapIds (φ : NodeId → NodeId) :
    (∀ (e : Expression) (above : List NodeId),
      (e.mapIds φ).alternatives (.along (above.map φ) (φ e.id)) =
        (e.alternatives (.along above e.id)).map (Alternative.mapIds φ)) ∧
    (∀ (t : Term) (above : List NodeId),
      (t.mapIds φ).alternative (.along (above.map φ) (φ t.id)) =
        (t.alternative (.along above t.id)).mapIds φ) ∧
    ∀ (f : Factor) (above : List NodeId),
      (f.mapIds φ).sketchBelow (above.map φ) = (f.sketchBelow above).mapIds φ :=
  Parts.induction
    { expression := by
        rintro ⟨id, terms⟩ ih above
        have below : (above ++ [id]).map φ = above.map φ ++ [φ id] := by simp
        simp only [Expression.mapIds, Expression.alternatives, Term.alternatives_eq_map,
          Term.mapIdsAll_eq_map, List.map_map, Function.comp_def, Term.id_mapIds,
          ← Path.along_append, ← below]
        exact List.map_congr_left fun t ht => ih t ht (above ++ [id])
      term := by
        rintro ⟨id, factors⟩ ih above
        have below : (above ++ [id]).map φ = above.map φ ++ [φ id] := by simp
        have sketches : (factors.map (Factor.mapIds φ)).map
            (Factor.sketchBelow (above.map φ ++ [φ id])) =
            (factors.map (Factor.sketchBelow (above ++ [id]))).map (Sketch.mapIds φ) := by
          rw [List.map_map, List.map_map, ← below]
          exact List.map_congr_left fun f hf => ih f hf (above ++ [id])
        have arranged := Sketch.arrange_mapIds (φ := φ) ⟨id, factors⟩
          (factors.map (Factor.sketchBelow (above ++ [id])))
        simp only [Term.mapIds, Factor.mapIdsAll_eq_map] at arranged
        simp only [Term.mapIds, Term.alternative, Factor.mapIdsAll_eq_map, Factor.sketches_along,
          sketches, arranged, Alternative.mapIds]
        simp [Sketch.mapIds, Function.comp_def]
      identifier := by
        intro id name above
        have path : (⟨above.map φ ++ [φ id, φ name.id]⟩ : PathKey) =
            (⟨above ++ [id, name.id]⟩ : PathKey).mapIds φ := by
          simp [PathKey.mapIds]
        have capital : (name.mapIds φ).isReference = name.isReference := rfl
        simp only [Factor.mapIds, Factor.sketchBelow, Factor.id, Factor.sketch, Path.key_push,
          Path.key_along, PathKey.push, List.append_assoc, List.singleton_append, path,
          Sketch.mapIds, List.map_nil]
        simp only [Identifier.mapIds] at capital
        rw [capital]
        split <;> rfl
      literal := by
        intro id l above
        simp [Factor.mapIds, Factor.sketchBelow, Factor.id, Factor.sketch, Sketch.mapIds,
          Layout.mapIds, PathKey.mapIds, PathKey.push]
      bracketed := by
        intro id bracket body ih above
        have below : (above ++ [id]).map φ = above.map φ ++ [φ id] := by simp
        have inside := ih (above ++ [id])
        rw [below, Path.along_append, Path.along_append] at inside
        simp only [Factor.mapIds, Factor.sketchBelow, Factor.id, Factor.sketch, inside,
          Alternative.bracketed_mapIds, Sketch.mapIds, Expression.id_mapIds] }

/-- **The layout of a renamed expression is the renamed layout.** -/
theorem Expression.layout_mapIds (e : Expression) (above : List NodeId) :
    (e.mapIds φ).layout (above.map φ) = (e.layout above).mapIds φ := by
  have alternatives := (Parts.layouts_mapIds φ).1 e above
  rw [layout, layout, Expression.id_mapIds, alternatives, Alternative.either_mapIds]

end Layout

end Railroad
