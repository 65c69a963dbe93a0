import Mathlib.Computability.Language
import Railroad.Proofs.CanonicalText
import Railroad.Proofs.Compaction
import Railroad.Proofs.Tracks

/-!
The language of a diagram is that of the production it starts from.

The words are lists of displayed texts. A name that starts with a capital stands for the language
that `ρ` gives to it, whether it is opened or not; everything else that is displayed stands for
itself.

* `Expression.language`, `Track.language`: what a part of a grammar and what a track can be read as.
* `Factor.language_eq_of_sameSymbol`: factors with one canonical text have one language.
* `Term.language_fullMatch`, `Term.language_separator`: so a factor that is dropped may be read off
  the body of the loop that takes its place.
* `Parts.language_layout`: laying out a part leaves its language alone, compacted or not.
* `Grammar.language_diagram`: the language of a diagram, whatever is opened in it.
-/

namespace Railroad

open Computability

variable (ρ : String → Language String)

/-! ### Languages of grammars -/

mutual

/-- A word of one of the terms. -/
def Expression.language : Expression → Language String
  | ⟨_, terms⟩ => (Term.languages terms).sum

/-- A word of each factor, one after the other. -/
def Term.language : Term → Language String
  | ⟨_, factors⟩ => (Factor.languages factors).prod

def Factor.language : Factor → Language String
  | .identifier _ name => if name.isReference then ρ name.text else {[name.text]}
  | .literal _ l => {[l.text]}
  | .bracketed _ .group body => body.language
  | .bracketed _ .option body => body.language + 1
  | .bracketed _ .repetition body => body.language∗

def Term.languages : List Term → List (Language String)
  | [] => []
  | t :: rest => t.language :: Term.languages rest

def Factor.languages : List Factor → List (Language String)
  | [] => []
  | f :: rest => f.language :: Factor.languages rest

end

/-- One round, and any number of further rounds, each behind a way back. -/
def loopLanguage (item back : Language String) : Language String :=
  item * (back * item)∗

mutual

/-- What can be read along a track from left to right. -/
def Track.language : Track → Language String
  | .sequence items => (Track.languages items).prod
  | .choice _ options => (Track.languages options).sum
  | .optional item => item.language + 1
  | .zeroOrMore item => item.language∗
  | .oneOrMore item none => loopLanguage item.language 1
  | .oneOrMore .skip (some (.choice _ options)) => loopLanguage 1 (Track.waysBack options).sum
  | .oneOrMore item (some back) => loopLanguage item.language back.language
  | .terminal text _ => {[text]}
  | .nonTerminal text _ => ρ text
  | .group _ _ item => item.language
  | .skip => 1

def Track.languages : List Track → List (Language String)
  | [] => []
  | track :: rest => track.language :: Track.languages rest

/-- What can be read along tracks that are drawn from right to left. -/
def Track.waysBack : List Track → List (Language String)
  | [] => []
  | .sequence items :: rest => (Track.languages items).reverse.prod :: Track.waysBack rest
  | track :: rest => track.language :: Track.waysBack rest

end

variable {ρ}

theorem Term.languages_eq_map (terms : List Term) :
    Term.languages ρ terms = terms.map (Term.language ρ) := by
  induction terms with
  | nil => rfl
  | cons t rest ih => simp [Term.languages, ih]

theorem Factor.languages_eq_map (factors : List Factor) :
    Factor.languages ρ factors = factors.map (Factor.language ρ) := by
  induction factors with
  | nil => rfl
  | cons f rest ih => simp [Factor.languages, ih]

theorem Track.languages_eq_map (tracks : List Track) :
    Track.languages ρ tracks = tracks.map (Track.language ρ) := by
  induction tracks with
  | nil => rfl
  | cons track rest ih => simp [Track.languages, ih]

theorem Expression.language_eq (e : Expression) :
    e.language ρ = (e.terms.map (Term.language ρ)).sum := by
  obtain ⟨id, terms⟩ := e
  rw [Expression.language, Term.languages_eq_map]

theorem Term.language_eq (t : Term) : t.language ρ = (t.factors.map (Factor.language ρ)).prod := by
  obtain ⟨id, factors⟩ := t
  rw [Term.language, Factor.languages_eq_map]

/-! ### Ids do not matter -/

mutual

theorem Expression.language_number (n : Nat) :
    ∀ e : Expression, (e.number n).language ρ = e.language ρ
  | ⟨_, terms⟩ => by
    simp only [Expression.number, Expression.language, Term.languages_numberAll (n + 1) terms]

theorem Term.language_number (n : Nat) : ∀ t : Term, (t.number n).language ρ = t.language ρ
  | ⟨_, factors⟩ => by
    simp only [Term.number, Term.language, Factor.languages_numberAll (n + 1) factors]

theorem Factor.language_number (n : Nat) : ∀ f : Factor, (f.number n).language ρ = f.language ρ
  | .identifier _ _ => rfl
  | .literal _ _ => rfl
  | .bracketed _ .group body => body.language_number (n + 1)
  | .bracketed _ .option body => by
    simp only [Factor.number, Factor.language, body.language_number (n + 1)]
  | .bracketed _ .repetition body => by
    simp only [Factor.number, Factor.language, body.language_number (n + 1)]

theorem Term.languages_numberAll (n : Nat) :
    ∀ terms : List Term, Term.languages ρ (Term.numberAll n terms) = Term.languages ρ terms
  | [] => rfl
  | t :: rest => by
    simp only [Term.numberAll, Term.languages, t.language_number n,
      Term.languages_numberAll (n + t.size) rest]

theorem Factor.languages_numberAll (n : Nat) :
    ∀ factors : List Factor,
      Factor.languages ρ (Factor.numberAll n factors) = Factor.languages ρ factors
  | [] => rfl
  | f :: rest => by
    simp only [Factor.numberAll, Factor.languages, f.language_number n,
      Factor.languages_numberAll (n + f.size) rest]

end

/-- **Factors with one canonical text have one language.** -/
theorem Factor.language_eq_of_sameSymbol {a b : Factor} (ha : a.Legible) (hb : b.Legible)
    (same : a.sameSymbol b = true) : a.language ρ = b.language ρ := by
  rw [← a.language_number 0, number_eq_of_sameSymbol ha hb same, b.language_number 0]

/-- Factors that are the same symbols, one by one, have one language. -/
theorem SameSymbols.prod_language_eq {as bs : List Factor} (h : SameSymbols as bs)
    (ha : ∀ f ∈ as, f.Legible) (hb : ∀ f ∈ bs, f.Legible) :
    (as.map (Factor.language ρ)).prod = (bs.map (Factor.language ρ)).prod := by
  induction h with
  | nil => rfl
  | cons same _ ih =>
    obtain ⟨headA, restA⟩ := List.forall_mem_cons.mp ha
    obtain ⟨headB, restB⟩ := List.forall_mem_cons.mp hb
    rw [List.map_cons, List.map_cons, List.prod_cons, List.prod_cons,
      Factor.language_eq_of_sameSymbol headA headB same, ih restA restB]

/-- One or more rounds of a body, when the first round is read off the factors in front of it. -/
theorem Term.language_fullMatch {t inner : Term} {keep dropped after : List Factor} {id : NodeId}
    {body : Expression} (legible : t.Legible)
    (factors : t.factors = keep ++ (dropped ++ .bracketed id .repetition body :: after))
    (terms : body.terms = [inner]) (pairs : SameSymbols dropped inner.factors) :
    t.language ρ = (keep.map (Factor.language ρ)).prod *
      (loopLanguage (body.language ρ) 1 * (after.map (Factor.language ρ)).prod) := by
  obtain ⟨repetition, -, lost, -⟩ := Term.mem_of_cut factors
  have innerLegible := (legible.factor repetition).body.term (by simp [terms] : inner ∈ body.terms)
  have first : (dropped.map (Factor.language ρ)).prod = body.language ρ := by
    rw [body.language_eq, terms, List.map_singleton, List.sum_singleton, inner.language_eq]
    exact pairs.prod_language_eq (fun f hf => legible.factor (lost f hf))
      fun f hf => innerLegible.factor hf
  rw [t.language_eq, factors]
  simp only [List.map_append, List.map_cons, List.prod_append, List.prod_cons, first,
    loopLanguage, Factor.language, one_mul, mul_assoc]

/-- The end of a body and, any number of times, the beginning and the end of it, when the first end
is read off the factors in front of it. -/
theorem Term.language_separator {t inner : Term} {keep dropped head tail after : List Factor}
    {id : NodeId} {body : Expression} (legible : t.Legible)
    (factors : t.factors = keep ++ (dropped ++ .bracketed id .repetition body :: after))
    (terms : body.terms = [inner]) (split : inner.factors = head ++ tail)
    (pairs : SameSymbols dropped tail) :
    t.language ρ = (keep.map (Factor.language ρ)).prod *
      (loopLanguage (tail.map (Factor.language ρ)).prod (head.map (Factor.language ρ)).prod *
        (after.map (Factor.language ρ)).prod) := by
  obtain ⟨repetition, -, lost, -⟩ := Term.mem_of_cut factors
  have innerLegible := (legible.factor repetition).body.term (by simp [terms] : inner ∈ body.terms)
  have first : (dropped.map (Factor.language ρ)).prod = (tail.map (Factor.language ρ)).prod :=
    pairs.prod_language_eq (fun f hf => legible.factor (lost f hf))
      fun f hf => innerLegible.factor (by simp [split, hf])
  have round : body.language ρ =
      (head.map (Factor.language ρ)).prod * (tail.map (Factor.language ρ)).prod := by
    rw [body.language_eq, terms, List.map_singleton, List.sum_singleton, inner.language_eq,
      split, List.map_append, List.prod_append]
  rw [t.language_eq, factors]
  simp only [List.map_append, List.map_cons, List.prod_append, List.prod_cons, first, round,
    loopLanguage, Factor.language, mul_assoc]

/-! ### Languages of tracks -/

namespace Track

variable (ρ) in
/-- What can be read along a track that is drawn from right to left. -/
def wayBack : Track → Language String
  | .sequence items => (items.map (language ρ)).reverse.prod
  | track => track.language ρ

theorem waysBack_eq_map (tracks : List Track) :
    waysBack ρ tracks = tracks.map (wayBack ρ) := by
  induction tracks with
  | nil => rfl
  | cons track rest ih => cases track <;> simp [waysBack, wayBack, ih, languages_eq_map]

@[simp] theorem language_sequence (items : List Track) :
    (sequence items).language ρ = (items.map (language ρ)).prod := by
  rw [language, languages_eq_map]

@[simp] theorem language_choice (index : Nat) (options : List Track) :
    (choice index options).language ρ = (options.map (language ρ)).sum := by
  rw [language, languages_eq_map]

@[simp] theorem language_joined (items : List Track) :
    (joined items).language ρ = (items.map (language ρ)).prod := by
  unfold joined
  split
  · simp
  · simp

theorem joined_eq_sequence {items : List Track} (h : items.length ≠ 1) :
    joined items = .sequence items := by
  unfold joined
  split
  · exact absurd rfl h
  · rfl

theorem joined_ne_skip {items : List Track} (h : ∀ item ∈ items, item ≠ .skip) :
    joined items ≠ .skip := by
  unfold joined
  split
  · exact h _ (by simp)
  · exact Track.noConfusion

/-- A loop through some track, read forward and back in the usual direction. -/
theorem language_loop {item back : Track} (h : item ≠ .skip) :
    (oneOrMore item (some back)).language ρ =
      loopLanguage (item.language ρ) (back.language ρ) := by
  rw [language]
  intro _ _ skip
  exact absurd skip h

/-- A loop through nothing, read back over one of several ways. -/
theorem language_loop_skip (index : Nat) (options : List Track) :
    (oneOrMore .skip (some (choice index options))).language ρ =
      (options.map (wayBack ρ)).sum∗ := by
  rw [language, waysBack_eq_map, loopLanguage, one_mul, mul_one]

end Track

/-! ### Languages of layouts -/

section Layout

variable {refer : String → PathKey → Track}

variable (ρ refer) in
/-- The factor is drawn as a track with its language, which is not empty and is read in one
direction as in the other but for what is inside it. -/
structure Factor.Drawn (f : Factor) : Prop where
  language : ∀ above, ((f.layout above).track refer).language ρ = f.language ρ
  notSkip : ∀ above, (f.layout above).track refer ≠ .skip
  wayBack : ∀ above, ((f.layout above).track refer).wayBack ρ = f.language ρ

/-- Factors that are drawn one after the other. -/
theorem Factor.Drawn.prod {factors : List Factor} (h : ∀ f ∈ factors, f.Drawn ρ refer)
    (above : List NodeId) :
    ((Layout.trackAll refer (factors.map (Factor.layout above))).map (Track.language ρ)).prod =
      (factors.map (Factor.language ρ)).prod := by
  rw [Layout.trackAll_eq_map, List.map_map, List.map_map]
  congr 1
  exact List.map_congr_left fun f hf => (h f hf).language above

theorem Factor.Drawn.joined_ne_skip {factors : List Factor} (h : ∀ f ∈ factors, f.Drawn ρ refer)
    (above : List NodeId) :
    Track.joined (Layout.trackAll refer (factors.map (Factor.layout above))) ≠ .skip := by
  refine Track.joined_ne_skip fun track htrack => ?_
  rw [Layout.trackAll_eq_map, List.map_map] at htrack
  obtain ⟨f, hf, rfl⟩ := List.mem_map.mp htrack
  exact (h f hf).notSkip above

/-- Factors that are drawn from right to left and read in this direction. -/
theorem Factor.Drawn.wayBack_returned {factors : List Factor} (h : ∀ f ∈ factors, f.Drawn ρ refer)
    (above : List NodeId) :
    ((Layout.returned (factors.map (Factor.layout above))).track refer).wayBack ρ =
      (factors.map (Factor.language ρ)).prod := by
  rw [Layout.track]
  by_cases one : factors.length = 1
  · obtain ⟨f, rfl⟩ := List.length_eq_one_iff.mp one
    have only := (h f (by simp)).wayBack above
    simpa [Layout.trackAll, Track.joined] using only
  · have several :
        (Layout.trackAll refer (factors.map (Factor.layout above))).reverse.length ≠ 1 := by
      simpa [Layout.trackAll_eq_map] using one
    rw [Track.joined_eq_sequence several, Track.wayBack, List.map_reverse, List.reverse_reverse,
      Factor.Drawn.prod h]

variable (ρ) in
/-- The track has the language of the name, whichever way it is drawn, and is not empty. -/
structure Track.StandsFor (name : String) (t : Track) : Prop where
  language : t.language ρ = ρ name
  notSkip : t ≠ .skip
  wayBack : t.wayBack ρ = ρ name

theorem Track.standsFor_nonTerminal (name : String) (path : PathKey) :
    (nonTerminal name path).StandsFor ρ name where
  language := rfl
  notSkip := by simp
  wayBack := rfl

theorem Track.standsFor_group {name : String} {item : Track} (h : item.language ρ = ρ name)
    (path : PathKey) : (group name path item).StandsFor ρ name where
  language := h
  notSkip := by simp
  wayBack := h

/-- A repetition is drawn as a loop of its body or, if it is made of terminal terms, as one way back
for each of them. -/
theorem Factor.drawn_repetition {id : NodeId} {body : Expression}
    (whole : ∀ above, ((body.layout above).track refer).language ρ = body.language ρ)
    (pieces : ∀ t ∈ body.terms, ∀ f ∈ t.factors, f.Drawn ρ refer) :
    (Factor.bracketed id .repetition body).Drawn ρ refer := by
  by_cases parallel :
      1 < body.terms.length ∧ body.terms.all (·.factors.all Factor.isTerminal) = true
  · have ways : ∀ t ∈ body.terms, ∀ up,
        ((Layout.returned (t.factors.map (Factor.layout up))).track refer).wayBack ρ =
          t.language ρ := by
      intro t ht up
      rw [t.language_eq, Factor.Drawn.wayBack_returned (pieces t ht)]
    have language : ∀ above,
        (((Factor.bracketed id .repetition body).layout above).track refer).language ρ =
          (Factor.bracketed id .repetition body).language ρ := by
      intro above
      rw [Factor.layout_repetition, if_pos parallel, Layout.track, Layout.track, Layout.track,
        Layout.track, Track.language_loop_skip, Factor.language, body.language_eq,
        Layout.trackAll_eq_map, List.map_map, List.map_map]
      congr 2
      exact List.map_congr_left fun t ht => ways t ht _
    refine ⟨language, fun above => ?_, fun above => (?_ : _ = _).trans (language above)⟩
    · rw [Factor.layout_repetition, if_pos parallel]
      exact Track.noConfusion
    · rw [Factor.layout_repetition, if_pos parallel]
      rfl
  · constructor <;> intro above <;> rw [Factor.layout_repetition, if_neg parallel, Layout.track]
    · rw [Track.language, whole, Factor.language]
    · exact Track.noConfusion
    · rw [Track.wayBack, Track.language, whole, Factor.language]
      exact fun _ => Track.noConfusion

/-- A name is drawn as a reference if it starts with a capital, and as itself otherwise. -/
theorem Factor.drawn_identifier (h : ∀ name path, (refer name path).StandsFor ρ name)
    (id : NodeId) (name : Identifier) : (Factor.identifier id name).Drawn ρ refer := by
  cases capital : name.isReference with
  | true =>
    constructor <;> intro above <;> rw [Factor.layout_identifier, if_pos capital, Layout.track]
    · rw [(h _ _).language, Factor.language, if_pos capital]
    · exact (h _ _).notSkip
    · rw [(h _ _).wayBack, Factor.language, if_pos capital]
  | false =>
    have closed : ¬ name.isReference = true := by simp [capital]
    constructor <;> intro above <;> rw [Factor.layout_identifier, if_neg closed, Layout.track]
    · rw [Track.language, Factor.language, if_neg closed]
    · exact Track.noConfusion
    · rw [Track.wayBack, Track.language, Factor.language, if_neg closed]
      exact fun _ => Track.noConfusion

/-- Brackets are drawn as what is in them, with a way around it if they are optional. -/
theorem Factor.drawn_bracketed {id : NodeId} {bracket : Bracket} {body : Expression}
    (whole : ∀ above, ((body.layout above).track refer).language ρ = body.language ρ)
    (pieces : ∀ t ∈ body.terms, ∀ f ∈ t.factors, f.Drawn ρ refer) :
    (Factor.bracketed id bracket body).Drawn ρ refer := by
  cases bracket with
  | group =>
    constructor <;> intro above <;> rw [Factor.layout_group, Layout.track, Layout.trackAll_eq_map]
    · simp [whole, Factor.language]
    · exact Track.noConfusion
    · simp [Track.wayBack, whole, Factor.language]
  | option =>
    constructor <;> intro above <;> rw [Factor.layout_option, Layout.track]
    · simp [Track.language, whole, Factor.language]
    · exact Track.noConfusion
    · simp [Track.wayBack, Track.language, whole, Factor.language]
  | repetition => exact Factor.drawn_repetition whole pieces

/-- A term has the language of its layout, whichever way it is compacted. -/
theorem Term.language_layout {t : Term} (legible : t.Legible)
    (each : ∀ f ∈ t.factors, f.Drawn ρ refer)
    (nested : ∀ id body, .bracketed id .repetition body ∈ t.factors →
      (∀ above, ((body.layout above).track refer).language ρ = body.language ρ) ∧
        ∀ inner ∈ body.terms, ∀ f ∈ inner.factors, f.Drawn ρ refer)
    (above : List NodeId) : ((t.layout above).track refer).language ρ = t.language ρ := by
  cases t.view with
  | plain plain =>
    obtain ⟨arranged, layout, joined | sequence⟩ := t.layout_plain above plain
    · rw [layout, joined, Layout.track, Layout.track, Track.language_joined,
        Factor.Drawn.prod each, t.language_eq]
    · rw [layout, sequence, Layout.track, Layout.track, Track.language_sequence,
        Factor.Drawn.prod each, t.language_eq]
  | @fullMatch keep dropped after id body inner factors decided terms pairs =>
    obtain ⟨repetition, kept, -, behind⟩ := Term.mem_of_cut factors
    have keeps := Factor.Drawn.prod fun f hf => each f (kept f hf)
    have afters := Factor.Drawn.prod fun f hf => each f (behind f hf)
    have round := (nested id body repetition).1
    rw [t.layout_fullMatch above factors decided,
      Term.language_fullMatch legible factors terms pairs]
    simp only [Layout.track, Track.language_joined, List.map_append, List.map_cons,
      List.prod_append, List.prod_cons, keeps, afters, Track.language, round]
  | @separator keep dropped head tail after id body inner factors decided terms split _ _ _ pairs =>
    obtain ⟨repetition, kept, -, behind⟩ := Term.mem_of_cut factors
    have pieces := (nested id body repetition).2 inner (by simp [terms])
    have heads : ∀ f ∈ head, f.Drawn ρ refer := fun f hf => pieces f (by simp [split, hf])
    have tails : ∀ f ∈ tail, f.Drawn ρ refer := fun f hf => pieces f (by simp [split, hf])
    have keeps := Factor.Drawn.prod fun f hf => each f (kept f hf)
    have afters := Factor.Drawn.prod fun f hf => each f (behind f hf)
    rw [t.layout_separator above factors terms split decided,
      Term.language_separator legible factors terms split pairs]
    simp only [Layout.track, Track.language_joined, List.map_append, List.map_cons,
      List.prod_append, List.prod_cons, keeps, afters]
    rw [Track.language_loop (Factor.Drawn.joined_ne_skip tails _)]
    simp only [Track.language_joined, Factor.Drawn.prod heads, Factor.Drawn.prod tails]

/-- **Laying out a part leaves its language alone.** -/
theorem Parts.language_layout (h : ∀ name path, (refer name path).StandsFor ρ name) :
    (∀ e : Expression, e.Legible → ∀ above,
      ((e.layout above).track refer).language ρ = e.language ρ) ∧
    (∀ t : Term, t.Legible → ∀ above,
      ((t.layout above).track refer).language ρ = t.language ρ) ∧
    ∀ f : Factor, f.Legible → f.Drawn ρ refer := by
  refine Parts.induction_nested ?expression ?term ?identifier ?literal ?bracketed
  case expression =>
    intro e ih legible above
    have each : ∀ t ∈ e.terms, ∀ up, ((t.layout up).track refer).language ρ = t.language ρ :=
      fun t ht => ih t ht (legible.term ht)
    rw [Expression.layout_eq, e.language_eq]
    split
    · rename_i only terms
      rw [terms, List.map_singleton, List.sum_singleton]
      exact each only (by simp [terms]) _
    · rw [Layout.track, Track.language_choice, Layout.trackAll_eq_map, List.map_map, List.map_map]
      congr 1
      exact List.map_congr_left fun t ht => each t ht _
  case term =>
    intro t ih nested legible
    refine Term.language_layout legible (fun f hf => ih f hf (legible.factor hf)) ?_
    intro id body repetition
    have bodyLegible := (legible.factor repetition).body
    obtain ⟨whole, pieces⟩ := nested id .repetition body repetition
    refine ⟨whole bodyLegible, fun inner hi f hf => ?_⟩
    exact pieces inner hi f hf ((bodyLegible.term hi).factor hf)
  case identifier =>
    intro id name _
    exact Factor.drawn_identifier h id name
  case literal =>
    intro id l _
    exact ⟨fun _ => rfl, fun _ => Track.noConfusion, fun _ => rfl⟩
  case bracketed =>
    intro id bracket body ih pieces legible
    refine Factor.drawn_bracketed (ih legible.body) ?_
    intro t ht f hf
    exact pieces t ht f hf ((legible.body.term ht).factor hf)

end Layout

/-! ### Languages of diagrams -/

/-- References stand for their names, opened or not, if the names have the languages of their
productions. -/
theorem Grammar.shown_standsFor {g : Grammar} (legible : ∀ p ∈ g.productions, p.body.Legible)
    (solution : ∀ name p, g.find? name = some p → ρ name = p.body.language ρ)
    (selected : PathKey → Bool) (levels : Nat) (name : String) (path : PathKey) :
    (g.shown selected levels name path).StandsFor ρ name := by
  induction levels generalizing name path with
  | zero => exact Track.standsFor_nonTerminal name path
  | succ levels ih =>
    unfold shown
    split
    · cases found : g.find? name with
      | none => exact Track.standsFor_nonTerminal name path
      | some p =>
        refine Track.standsFor_group ?_ path
        rw [(Parts.language_layout ih).1 p.body (legible p (List.mem_of_find?_eq_some found)),
          solution name p found]
    · exact Track.standsFor_nonTerminal name path

/-- **The language of a diagram is that of its start.** Let every declared name have the language of
the first production of the name. Then the diagram of an accepted text has the language of the
production it starts from, whichever references are opened. -/
theorem Grammar.language_diagram {text : String} {g : Grammar}
    (read : Grammar.ofString? text = .ok g) {ρ : String → Language String}
    (solution : ∀ name p, g.find? name = some p → ρ name = p.body.language ρ)
    {start : Option String} {expanded : List PathKey} {d : Diagram}
    (drawn : (g.diagram start expanded).result = .ok d) :
    ∃ p, g.startProduction start = .ok p ∧ d.root.language ρ = p.body.language ρ := by
  rw [diagram_eq] at drawn
  obtain ⟨p, started, rfl⟩ := draw_eq_ok drawn
  have legible := legible_of_ofString? read
  have refers := shown_standsFor legible solution (fun key => decide (key ∈ expanded)) maxDepth
  have body := (Parts.language_layout refers).1 p.body (legible p (mem_of_startProduction started))
  refine ⟨p, started, ?_⟩
  rw [Track.language_sequence, List.map_singleton, List.prod_singleton, body]

set_option maxRecDepth 4000 in
/-- A separator loop with an opened reference in it. -/
theorem Grammar.language_diagram_separator :
    let g : Grammar := ⟨1, [⟨2, ⟨3, "A"⟩, ⟨4, [⟨5, [.identifier 6 ⟨7, "B"⟩, .bracketed 8 .repetition
      ⟨9, [⟨10, [.identifier 11 ⟨12, "x"⟩, .identifier 13 ⟨14, "B"⟩]⟩]⟩]⟩]⟩⟩,
      ⟨15, ⟨16, "B"⟩, ⟨17, [⟨18, [.identifier 19 ⟨20, "b"⟩]⟩]⟩⟩]⟩
    let ρ : String → Language String := fun name =>
      if name = "A" then {["b"]} * ({["x"]} * {["b"]})∗ else {["b"]}
    let d : Diagram := ⟨"A", .sequence [.oneOrMore
      (.group "B" ⟨[2, 4, 5, 8, 9, 10, 13, 14]⟩
        (.terminal "b" ⟨[2, 4, 5, 8, 9, 10, 13, 14, 17, 18, 19, 20]⟩))
      (some (.terminal "x" ⟨[2, 4, 5, 8, 9, 10, 11, 12]⟩))]⟩
    Grammar.ofString? "A = B \x7bx B\x7d . B = b ." = .ok g ∧
      (∀ name p, g.find? name = some p → ρ name = p.body.language ρ) ∧
      (g.diagram none [⟨[2, 4, 5, 8, 9, 10, 13, 14]⟩]).result = .ok d ∧
      ∃ p, g.startProduction none = .ok p ∧ d.root.language ρ = p.body.language ρ := by
  intro g ρ d
  have read : Grammar.ofString? "A = B \x7bx B\x7d . B = b ." = .ok g := by cbv
  have solution : ∀ name p, g.find? name = some p → ρ name = p.body.language ρ := by
    intro name p found
    have capital : startsUppercase "B" = true := by decide
    have small : startsUppercase "x" = false ∧ startsUppercase "b" = false := by decide
    rcases List.find?_cons_eq_some.mp found with ⟨same, rfl⟩ | ⟨-, found⟩
    · obtain rfl := of_decide_eq_true same
      simp [ρ, Expression.language, Term.languages, Term.language, Factor.languages,
        Factor.language, Identifier.isReference, capital, small]
    rcases List.find?_cons_eq_some.mp found with ⟨same, rfl⟩ | ⟨-, found⟩
    · obtain rfl := of_decide_eq_true same
      simp [ρ, Expression.language, Term.languages, Term.language, Factor.languages,
        Factor.language, Identifier.isReference, small]
    · cases found
  have drawn : (g.diagram none [⟨[2, 4, 5, 8, 9, 10, 13, 14]⟩]).result = .ok d := by
    rw [diagram_eq]
    cbv
  exact ⟨read, solution, drawn, language_diagram read solution drawn⟩

end Railroad
