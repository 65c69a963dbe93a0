import Mathlib.Order.Bounds.Basic
import Railroad.Proofs.DrawnPlaces
import Railroad.Proofs.SameSymbol

/-!
Which factors in front of a repetition become the first round of a loop.

* `Compaction.Folds`: so many factors in front of a repetition can be drawn as the first round of a
  loop over the end of its body, with the rest of the body on the way back.
* `Compaction.le_matchedSuffix_iff`, `Compaction.Folds.matchedSuffix`: the matching suffix is the
  longest there is, and if any number of factors folds, then so do all that match, since the rest of
  the body only gets shorter.
* `Term.DrawnByRule`: what a term is drawn as, by which numbers of factors fold.
* `Grammar.compaction_diagram`: every term of a diagram is drawn by this rule.
-/

namespace Railroad

/-! ### Numbers of factors that fold -/

namespace Compaction

/-- The last `k` factors of `before` can be the first round of a loop: they are, one by one, the
same symbols as the last `k` factors of `inner`, and the factors of `inner` in front of those are
terminal. -/
structure Folds (before inner : List Factor) (k : Nat) : Prop where
  pos : 1 ≤ k
  le_before : k ≤ before.length
  le_inner : k ≤ inner.length
  same : SameSymbols (before.drop (before.length - k)) (inner.drop (inner.length - k))
  terminal : ∀ f ∈ inner.take (inner.length - k), f.isTerminal = true

/-- As many pairs in a row as the first `k` factors are the same symbols. -/
theorem le_length_takeWhile_zip_iff {as bs : List Factor} {k : Nat} :
    k ≤ ((as.zip bs).takeWhile fun (a, b) => a.sameSymbol b).length ↔
      k ≤ as.length ∧ k ≤ bs.length ∧ SameSymbols (as.take k) (bs.take k) := by
  induction as generalizing bs k with
  | nil =>
    simp only [List.zip_nil_left, List.takeWhile_nil, List.length_nil, Nat.le_zero_eq]
    constructor
    · rintro rfl
      exact ⟨rfl, Nat.zero_le _, .nil⟩
    · exact And.left
  | cons a as ih =>
    cases k with
    | zero => simp
    | succ k =>
      cases bs with
      | nil => simp
      | cons b bs =>
        by_cases same : a.sameSymbol b = true
        · simp [same, ih]
        · simp [same]

/-- **The matching suffix is the longest**: it is at least as long as any common one. -/
theorem le_matchedSuffix_iff {before inner : List Factor} {k : Nat} :
    k ≤ matchedSuffix before inner ↔ k ≤ before.length ∧ k ≤ inner.length ∧
      SameSymbols (before.drop (before.length - k)) (inner.drop (inner.length - k)) := by
  rw [matchedSuffix, le_length_takeWhile_zip_iff, List.length_reverse, List.length_reverse,
    List.take_reverse, List.take_reverse, SameSymbols, List.forall₂_reverse_iff]

variable {before inner : List Factor} {k : Nat}

theorem Folds.le_matchedSuffix (h : Folds before inner k) : k ≤ matchedSuffix before inner :=
  le_matchedSuffix_iff.mpr ⟨h.le_before, h.le_inner, h.same⟩

/-- **If any number of factors folds, all that match do**: the more of the body is matched, the less
of it has to be terminal. -/
theorem Folds.matchedSuffix (h : Folds before inner k) :
    Folds before inner (matchedSuffix before inner) := by
  have longer := h.le_matchedSuffix
  obtain ⟨le_before, le_inner, same⟩ := le_matchedSuffix_iff.mp (Nat.le_refl _)
  refine ⟨Nat.le_trans h.pos longer, le_before, le_inner, same, fun f hf => h.terminal f ?_⟩
  exact (List.take_sublist_take_left (by omega)).subset hf

theorem isGreatest_folds_iff :
    IsGreatest {k | Folds before inner k} k ↔
      Folds before inner k ∧ k = matchedSuffix before inner := by
  constructor
  · rintro ⟨folds, bound⟩
    exact ⟨folds, Nat.le_antisymm folds.le_matchedSuffix (bound folds.matchedSuffix)⟩
  · rintro ⟨folds, rfl⟩
    exact ⟨folds, fun _ other => other.le_matchedSuffix⟩

/-- All that match are folded, unless nothing folds. -/
theorem ofSingleBody_of_folds (h : Folds before inner k) :
    ofSingleBody before inner =
      if matchedSuffix before inner = inner.length then
        .fullMatch before.length (matchedSuffix before inner)
      else
        .separator before.length (matchedSuffix before inner)
          (inner.length - matchedSuffix before inner) := by
  have all := h.matchedSuffix
  have head :
      (inner.take (inner.length - matchedSuffix before inner)).all Factor.isTerminal = true :=
    List.all_eq_true.mpr all.terminal
  rw [ofSingleBody, if_pos (⟨all.pos, head⟩ : 0 < _ ∧ _)]

theorem ofSingleBody_of_not_folds (inhabited : inner ≠ []) (h : ∀ k, ¬ Folds before inner k) :
    ofSingleBody before inner = .noMatch := by
  obtain ⟨le_before, le_inner, same⟩ :=
    le_matchedSuffix_iff.mp (Nat.le_refl (matchedSuffix before inner))
  have short : ¬ (0 < matchedSuffix before inner ∧
      (inner.take (inner.length - matchedSuffix before inner)).all Factor.isTerminal = true) := by
    rintro ⟨pos, head⟩
    exact h _ ⟨pos, le_before, le_inner, same, List.all_eq_true.mp head⟩
  have part : matchedSuffix before inner ≠ inner.length := by
    intro whole
    have pos : 0 < inner.length := List.length_pos_iff.mpr inhabited
    exact short ⟨by omega, by simp [whole]⟩
  rw [ofSingleBody, if_neg part, if_neg short]

end Compaction

/-! ### Terms with a repetition -/

/-- Ids have no part in what a factor is. -/
theorem Factor.isRepetition_number (n : Nat) (f : Factor) :
    (f.number n).isRepetition = f.isRepetition := by
  cases f with
  | identifier id name => rfl
  | literal id l => rfl
  | bracketed id bracket body => cases bracket <;> rfl

theorem Factor.isRepetition_eq_of_sameSymbol {a b : Factor} (ha : a.Legible) (hb : b.Legible)
    (same : a.sameSymbol b = true) : a.isRepetition = b.isRepetition := by
  rw [← a.isRepetition_number 0, Factor.number_eq_of_sameSymbol ha hb same, b.isRepetition_number]

/-- No factor is a repetition if those with which they match are none. -/
theorem SameSymbols.isRepetition_eq_false {as bs : List Factor} (h : SameSymbols as bs)
    (has : ∀ a ∈ as, a.Legible) (hbs : ∀ b ∈ bs, b.Legible)
    (none : ∀ a ∈ as, a.isRepetition = false) : ∀ b ∈ bs, b.isRepetition = false := by
  induction h with
  | nil => simp
  | cons same _ ih =>
    rw [List.forall_mem_cons] at has hbs none ⊢
    refine ⟨?_, ih has.2 hbs.2 none.2⟩
    rw [← Factor.isRepetition_eq_of_sameSymbol has.1 hbs.1 same]
    exact none.1

/-- The term is cut at its first repetition. -/
structure Term.CutAt (t : Term) (before : List Factor) (id : NodeId) (body : Expression)
    (after : List Factor) : Prop where
  factors : t.factors = before ++ .bracketed id .repetition body :: after
  first : ∀ f ∈ before, f.isRepetition = false

theorem splitAtRepetition_append {before after : List Factor} {id : NodeId} {body : Expression}
    (first : ∀ f ∈ before, f.isRepetition = false) :
    splitAtRepetition (before ++ .bracketed id .repetition body :: after) =
      some ⟨before, body, after⟩ := by
  induction before with
  | nil => rfl
  | cons f before ih =>
    obtain ⟨plain, rest⟩ := List.forall_mem_cons.mp first
    rw [List.cons_append, splitAtRepetition, ih rest]
    · rfl
    · rintro id body rfl
      cases plain

theorem splitAtRepetition_eq_none {factors : List Factor}
    (h : ∀ f ∈ factors, f.isRepetition = false) : splitAtRepetition factors = none := by
  cases found : splitAtRepetition factors with
  | none => rfl
  | some split =>
    obtain ⟨-, id, rfl⟩ := splitAtRepetition_eq_some found
    cases h (.bracketed id .repetition split.body) (by simp)

/-- A term without a repetition is not compacted. -/
theorem Compaction.isPlain_of {factors : List Factor}
    (h : ∀ f ∈ factors, f.isRepetition = false) : (Compaction.of factors).isPlain = true := by
  unfold Compaction.of
  split
  · rfl
  · rw [splitAtRepetition_eq_none h]
    rfl

section Repetition

variable {t inner : Term} {before after : List Factor} {id : NodeId} {body : Expression}

theorem Term.CutAt.splitAtRepetition_eq (cut : t.CutAt before id body after) :
    splitAtRepetition t.factors = some ⟨before, body, after⟩ := by
  rw [cut.factors]
  exact splitAtRepetition_append cut.first

/-- The decision on a term with several factors looks at its first repetition. -/
theorem Term.CutAt.compaction_eq (cut : t.CutAt before id body after)
    (several : 2 ≤ t.factors.length) (terms : body.terms = [inner]) :
    Compaction.of t.factors = Compaction.ofSingleBody before inner.factors := by
  have notSingle : t.factors.length ≠ 1 := by omega
  simp only [Compaction.of, if_neg notSingle, cut.splitAtRepetition_eq,
    Expression.singleTerm?_eq_some.mpr terms]

theorem Term.CutAt.compaction_eq_bodyWithChoice (cut : t.CutAt before id body after)
    (several : 2 ≤ t.factors.length) (choice : body.terms.length ≠ 1) :
    Compaction.of t.factors = .bodyWithChoice := by
  have notSingle : t.factors.length ≠ 1 := by omega
  have none : body.singleTerm? = none := by
    rw [Option.eq_none_iff_forall_not_mem]
    intro only single
    exact choice (by rw [Expression.singleTerm?_eq_some.mp single, List.length_singleton])
  simp only [Compaction.of, if_neg notSingle, cut.splitAtRepetition_eq, none]

theorem Term.CutAt.legible_inner (cut : t.CutAt before id body after) (legible : t.Legible)
    (terms : body.terms = [inner]) : inner.Legible := by
  have repetition : (Factor.bracketed id .repetition body).Legible :=
    legible.factor (by simp [cut.factors])
  exact repetition.body.term (by simp [terms])

/-- If the whole body folds, it matches factors that are no repetitions, so it is not compacted
itself. -/
theorem Term.CutAt.isPlain_inner (cut : t.CutAt before id body after) (legible : t.Legible)
    (terms : body.terms = [inner])
    (whole : Compaction.Folds before inner.factors inner.factors.length) :
    (Compaction.of inner.factors).isPlain = true := by
  have same := whole.same
  rw [Nat.sub_self, List.drop_zero] at same
  refine Compaction.isPlain_of (same.isRepetition_eq_false ?_ ?_ ?_)
  · intro f hf
    exact legible.factor (by simp [cut.factors, List.mem_of_mem_drop hf])
  · intro f hf
    exact (cut.legible_inner legible terms).factor hf
  · intro f hf
    exact cut.first f (List.mem_of_mem_drop hf)

variable (refer : String → PathKey → Track)

/-- A term with the last `k` factors in front of its repetition drawn as the first round of a loop.
The loop runs over the last `k` factors of the body and goes back over those in front of them, if
there are any. The factors of the term stand below the ids `outside`, those of the body below
`inside`. -/
def Compaction.folded (outside inside : List NodeId) (before inner after : List Factor) (k : Nat) :
    Track :=
  .joined (Factor.tracks refer outside (before.take (before.length - k)) ++
    .oneOrMore (.joined (Factor.tracks refer inside (inner.drop (inner.length - k))))
      (if k = inner.length then none
        else some (.joined (Factor.tracks refer inside (inner.take (inner.length - k))))) ::
    Factor.tracks refer outside after)

variable {refer}

/-- **If any number of factors folds, a term is drawn with all that match folded.** -/
theorem Term.track_folded (legible : t.Legible) (cut : t.CutAt before id body after)
    (several : 2 ≤ t.factors.length) (terms : body.terms = [inner]) {k : Nat}
    (folds : Compaction.Folds before inner.factors k) (above : List NodeId) :
    (t.layout above).track refer =
      Compaction.folded refer (above ++ [t.id]) (above ++ [t.id] ++ [id] ++ [body.id] ++ [inner.id])
        before inner.factors after (matchedSuffix before inner.factors) := by
  have all := folds.matchedSuffix
  have decided := cut.compaction_eq several terms
  rw [Compaction.ofSingleBody_of_folds folds] at decided
  generalize matched : matchedSuffix before inner.factors = m at all decided
  have le_before := all.le_before
  have le_inner := all.le_inner
  -- The term with the dropped factors by themselves.
  have factors : t.factors = before.take (before.length - m) ++
      (before.drop (before.length - m) ++ .bracketed id .repetition body :: after) := by
    rw [cut.factors, ← List.append_assoc, List.take_append_drop]
  have dropped : (before.drop (before.length - m)).length = m := by
    rw [List.length_drop]
    omega
  have index : (before.take (before.length - m)).length +
      (before.drop (before.length - m)).length = before.length := by
    rw [List.length_take, dropped]
    omega
  have split := (List.take_append_drop (inner.factors.length - m) inner.factors).symm
  split_ifs at decided with whole
  · have plain := cut.isPlain_inner legible terms (whole ▸ all)
    have decided : Compaction.of t.factors =
        .fullMatch ((before.take (before.length - m)).length +
          (before.drop (before.length - m)).length) (before.drop (before.length - m)).length := by
      rw [decided, index, dropped]
    rw [t.track_fullMatch above factors decided, Expression.track_single _ terms,
      Term.track_plain _ plain, Compaction.folded, if_pos whole, whole,
      Nat.sub_self, List.drop_zero]
  · have head : (inner.factors.take (inner.factors.length - m)).length =
        inner.factors.length - m := by
      rw [List.length_take]
      omega
    rw [Compaction.folded, if_neg whole]
    refine t.track_separator above factors terms split ?_
    rw [decided, index, dropped, head]

/-- If no number of factors folds, a term is drawn factor by factor. -/
theorem Term.track_of_not_folds (legible : t.Legible) (cut : t.CutAt before id body after)
    (several : 2 ≤ t.factors.length) (terms : body.terms = [inner])
    (none : ∀ k, ¬ Compaction.Folds before inner.factors k) (above : List NodeId) :
    (t.layout above).track refer =
      .joined (Factor.tracks refer (above ++ [t.id]) before ++
        .zeroOrMore ((body.layout (above ++ [t.id] ++ [id])).track refer) ::
        Factor.tracks refer (above ++ [t.id]) after) := by
  have inhabited := (Term.fits_iff.mp (cut.legible_inner legible terms).fits).1
  have decided := cut.compaction_eq several terms
  rw [Compaction.ofSingleBody_of_not_folds inhabited none] at decided
  rw [t.track_plain above (by rw [decided]; rfl), cut.factors, Factor.tracks, List.map_append,
    List.map_cons, Factor.track_bracketed _ (by simp [Factor.isParallel, terms])]
  rfl

/-- The number of factors that are folded can be seen. -/
theorem Compaction.eq_of_folded_eq {outside inside : List NodeId} {inner : List Factor}
    {k k' : Nat} (hk : k ≤ before.length) (hk' : k' ≤ before.length)
    (h : folded refer outside inside before inner after k =
      folded refer outside inside before inner after k') : k = k' := by
  have length := Track.length_eq_of_joined_eq h (List.mem_append_right _ List.mem_cons_self)
    (List.mem_append_right _ List.mem_cons_self) (by simp) (by simp)
  simp only [List.length_append, List.length_cons, Factor.length_tracks, List.length_take] at length
  omega

/-- A term with all factors drawn has more of them than one with a factor folded. -/
theorem Compaction.joined_ne_folded {outside inside : List NodeId} {inner : List Factor} {k : Nat}
    {item : Track} (pos : 1 ≤ k) (hk : k ≤ before.length) :
    .joined (Factor.tracks refer outside before ++
      .zeroOrMore item :: Factor.tracks refer outside after) ≠
        folded refer outside inside before inner after k := by
  intro h
  have length := Track.length_eq_of_joined_eq h (List.mem_append_right _ List.mem_cons_self)
    (List.mem_append_right _ List.mem_cons_self) (by simp) (by simp)
  simp only [List.length_append, List.length_cons, Factor.length_tracks, List.length_take] at length
  omega

variable (refer) in
/-- How a term with several factors is drawn. -/
structure Term.DrawnByRule (above : List NodeId) (t : Term) (track : Track) : Prop where
  /-- A loop is drawn for the first repetition exactly if some number of factors folds. -/
  folded_iff : ∀ {before id body inner after}, t.CutAt before id body after → body.terms = [inner] →
    ((∃ k, 1 ≤ k ∧ k ≤ before.length ∧ track = Compaction.folded refer (above ++ [t.id])
        (above ++ [t.id] ++ [id] ++ [body.id] ++ [inner.id]) before inner.factors after k) ↔
      ∃ k, Compaction.Folds before inner.factors k)
  /-- The number of factors that are folded is the greatest that folds. -/
  folded_eq_iff : ∀ {before id body inner after}, t.CutAt before id body after →
    body.terms = [inner] → ∀ k, 1 ≤ k → k ≤ before.length →
      (track = Compaction.folded refer (above ++ [t.id])
          (above ++ [t.id] ++ [id] ++ [body.id] ++ [inner.id]) before inner.factors after k ↔
        IsGreatest {k | Compaction.Folds before inner.factors k} k)
  /-- If none folds, the repetition is drawn by itself, and so are all other factors. -/
  not_folded : ∀ {before id body inner after}, t.CutAt before id body after →
    body.terms = [inner] → (∀ k, ¬ Compaction.Folds before inner.factors k) →
      track = .sequence (Factor.tracks refer (above ++ [t.id]) before ++
        .zeroOrMore ((body.layout (above ++ [t.id] ++ [id])).track refer) ::
        Factor.tracks refer (above ++ [t.id]) after)
  /-- Nothing is folded if the body of the first repetition is a choice. -/
  bodyWithChoice : ∀ {before id body after}, t.CutAt before id body after →
    body.terms.length ≠ 1 → track = .sequence (Factor.tracks refer (above ++ [t.id]) t.factors)
  noRepetition : (∀ f ∈ t.factors, f.isRepetition = false) →
    track = .sequence (Factor.tracks refer (above ++ [t.id]) t.factors)

/-- **Every legible term with several factors is drawn by this rule.** -/
theorem Term.drawnByRule {t : Term} (legible : t.Legible) (several : 2 ≤ t.factors.length)
    (above : List NodeId) : t.DrawnByRule refer above ((t.layout above).track refer) where
  folded_iff {before id body inner after} cut terms := by
    by_cases folds : ∃ k, Compaction.Folds before inner.factors k
    · obtain ⟨k, folds⟩ := folds
      have all := folds.matchedSuffix
      refine iff_of_true ⟨_, all.pos, all.le_before, ?_⟩ ⟨k, folds⟩
      exact Term.track_folded legible cut several terms folds above
    · refine iff_of_false ?_ folds
      rintro ⟨k, pos, hk, track⟩
      rw [Term.track_of_not_folds legible cut several terms (not_exists.mp folds)] at track
      exact Compaction.joined_ne_folded pos hk track
  folded_eq_iff {before id body inner after} cut terms k pos hk := by
    rw [Compaction.isGreatest_folds_iff]
    constructor
    · intro track
      by_cases folds : ∃ k, Compaction.Folds before inner.factors k
      · obtain ⟨_, folds⟩ := folds
        have all := folds.matchedSuffix
        rw [Term.track_folded legible cut several terms folds] at track
        have same := Compaction.eq_of_folded_eq all.le_before hk track
        exact ⟨same ▸ all, same.symm⟩
      · rw [Term.track_of_not_folds legible cut several terms (not_exists.mp folds)] at track
        exact absurd track (Compaction.joined_ne_folded pos hk)
    · rintro ⟨folds, matched⟩
      rw [Term.track_folded legible cut several terms folds, ← matched]
  not_folded {before id body inner after} cut terms none := by
    rw [Term.track_of_not_folds legible cut several terms none]
    refine Track.joined_of_length_ne_one ?_
    rw [cut.factors] at several
    simp only [List.length_append, List.length_cons, Factor.length_tracks] at several ⊢
    omega
  bodyWithChoice {before id body after} cut choice := by
    have decided := cut.compaction_eq_bodyWithChoice several choice
    rw [t.track_plain above (by rw [decided]; rfl)]
    exact Track.joined_of_length_ne_one (by rw [Factor.length_tracks]; omega)
  noRepetition none := by
    rw [t.track_plain above (Compaction.isPlain_of none)]
    exact Track.joined_of_length_ne_one (by rw [Factor.length_tracks]; omega)

end Repetition

/-! ### Diagrams -/

namespace Grammar

/-- **Suffix matching misses no compaction and makes no wrong one.** Let the diagram of an accepted
text be drawn, whatever is opened, and let a chain lead from its start to a term that is drawn as a
whole. Then the track of the term is in the diagram, and if the term has several factors, they are
drawn by the rule: those in front of the first repetition become the first round of a loop if any
number of them can, and then as many of them as can. -/
theorem compaction_diagram {text : String} {g : Grammar} (read : ofString? text = .ok g)
    {start : Option String} {expanded : List PathKey} {d : Diagram}
    (drawn : (g.diagram start expanded).result = .ok d) :
    ∃ p, g.startProduction start = .ok p ∧
      ∀ above t, g.Chain (· ∈ expanded) p (above ++ [t.id]) (.term t .whole) →
        ∃ track ∈ d.root.nodes, track = (t.layout above).track (g.shown (· ∈ expanded) maxDepth) ∧
          (2 ≤ t.factors.length →
            t.DrawnByRule (g.shown (· ∈ expanded) maxDepth) above track) := by
  rw [diagram_eq] at drawn
  obtain ⟨p, started, places⟩ := isDrawn_of_chain drawn
  refine ⟨p, started, fun above t chain => ?_⟩
  have belongs := (Place.Belongs.start (mem_of_startProduction started)).of_chain chain
  have legible := (HasNode.legible_of_ofString? read _ (belongs.node _ rfl)).term
  obtain ⟨above', same, shown⟩ := places _ _ chain
  obtain ⟨rfl, -⟩ := List.append_inj' same rfl
  exact ⟨_, shown, rfl, fun several => Term.drawnByRule legible several above⟩

set_option maxRecDepth 4000 in
/-- One factor could be folded, but two are. -/
theorem compaction_diagram_two :
    let before : List Factor :=
      [.identifier 6 ⟨7, "a"⟩, .identifier 8 ⟨9, "b"⟩, .identifier 10 ⟨11, "c"⟩]
    let inner : Term :=
      ⟨14, [.literal 15 ⟨16, ","⟩, .identifier 17 ⟨18, "b"⟩, .identifier 19 ⟨20, "c"⟩]⟩
    let t : Term := ⟨5, before ++ [.bracketed 12 .repetition ⟨13, [inner]⟩]⟩
    let p : Production := ⟨2, ⟨3, "A"⟩, ⟨4, [t]⟩⟩
    let g : Grammar := ⟨1, [p]⟩
    let d : Diagram := ⟨"A", .sequence [.sequence [.terminal "a" ⟨[2, 4, 5, 6, 7]⟩,
      .oneOrMore
        (.sequence [.terminal "b" ⟨[2, 4, 5, 12, 13, 14, 17, 18]⟩,
          .terminal "c" ⟨[2, 4, 5, 12, 13, 14, 19, 20]⟩])
        (some (.terminal "," ⟨[2, 4, 5, 12, 13, 14, 15, 16]⟩))]]⟩
    ofString? "A = a b c \x7b\",\" b c\x7d ." = .ok g ∧ (g.diagram none []).result = .ok d ∧
      g.Chain (· ∈ []) p [2, 4, 5] (.term t .whole) ∧
      Compaction.Folds before inner.factors 1 ∧
      IsGreatest {k | Compaction.Folds before inner.factors k} 2 := by
  intro before inner t p g d
  have read : ofString? "A = a b c \x7b\",\" b c\x7d ." = .ok g := by cbv
  have drawn : (g.diagram none []).result = .ok d := by
    rw [diagram_eq]
    cbv
  obtain ⟨_, started, rule⟩ := compaction_diagram read drawn
  cases started
  have step : Place.Step g (· ∈ []) ([2, 4], .expression p.body .whole)
      ([2, 4] ++ [t.id], .term t .whole) := .term (List.mem_singleton_self t)
  have chain : g.Chain (· ∈ []) p [2, 4, 5] (.term t .whole) := .single step
  obtain ⟨track, -, rfl, byRule⟩ := rule [2, 4] t chain
  have cut : t.CutAt before 12 ⟨13, [inner]⟩ [] := ⟨rfl, by decide⟩
  have greatest := (byRule (by decide)).folded_eq_iff cut rfl 2 (by decide) (by decide)
  refine ⟨read, drawn, chain, ?_, greatest.mp (by cbv)⟩
  exact ⟨by decide, by decide, by decide, by simp [before, inner]; decide, by decide⟩

end Grammar

end Railroad
