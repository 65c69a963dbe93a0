import Mathlib.Algebra.Order.Ring.Rat
import Mathlib.Order.Bounds.Basic
import Railroad.Proofs.DrawingOrder

/-!
What is found for a name, and what is suggested if nothing is.

* `Text.commonRows_tail`, `Text.commonLength_cons_cons`: the rows of the table hold what suffixes
  have in common. `Text.isGreatest_commonLength`: so the length found is that of a longest common
  subsequence.
* `Grammar.Best`: the first of the most similar candidates, if similar enough.
  `Grammar.Best.better`: one more candidate keeps it so, so this is what a list of candidates comes
  to (`Grammar.best_foldl`).
* `Grammar.lookup_spec`: the first production of a name is found; for an undeclared name, the first
  of the declared names most like it is suggested, if it is similar enough.
-/

namespace Railroad

/-! ### What two words have in common -/

namespace Text

/-- The lengths of the common subsequences of two words. -/
def commonLengths (as bs : List Char) : Set Nat :=
  {n | ∃ common : List Char, common.Sublist as ∧ common.Sublist bs ∧ common.length = n}

/-- The row for a suffix of the second word is part of the row for the word. -/
theorem commonRows_tail (as : List Char) (b : Char) (bs : List Char) :
    (commonRows as (b :: bs)).tail = commonRows as bs := by
  induction as with
  | nil => rfl
  | cons a as ih =>
    show commonRow a bs (commonRows as (b :: bs)).tail = commonRow a bs (commonRows as bs)
    rw [ih]

/-- What two words have in common, by what their suffixes do. -/
theorem commonLength_cons_cons (a b : Char) (as bs : List Char) :
    commonLength (a :: as) (b :: bs) =
      if a = b then commonLength as bs + 1
      else max (commonLength as (b :: bs)) (commonLength (a :: as) bs) := by
  have row : commonRows (a :: as) (b :: bs) = commonRow a (b :: bs) (commonRows as (b :: bs)) := rfl
  rw [commonLength, row, commonRow, commonRows_tail]
  rfl

theorem commonLength_mem (as bs : List Char) : commonLength as bs ∈ commonLengths as bs := by
  induction as generalizing bs with
  | nil => exact ⟨[], List.nil_sublist _, List.nil_sublist _, rfl⟩
  | cons a as ih =>
    induction bs with
    | nil => exact ⟨[], List.nil_sublist _, List.nil_sublist _, rfl⟩
    | cons b bs ihb =>
      rw [commonLength_cons_cons]
      split
      · rename_i same
        obtain ⟨common, left, right, length⟩ := ih bs
        subst same
        exact ⟨a :: common, left.cons_cons a, right.cons_cons a, by rw [List.length_cons, length]⟩
      · rcases max_choice (commonLength as (b :: bs)) (commonLength (a :: as) bs) with most | most
        · obtain ⟨common, left, right, length⟩ := ih (b :: bs)
          exact ⟨common, left.cons a, right, length.trans most.symm⟩
        · obtain ⟨common, left, right, length⟩ := ihb
          exact ⟨common, left, right.cons b, length.trans most.symm⟩

theorem length_le_commonLength {common as bs : List Char} (left : common.Sublist as)
    (right : common.Sublist bs) : common.length ≤ commonLength as bs := by
  induction as generalizing common bs with
  | nil => simp [List.sublist_nil.mp left]
  | cons a as ih =>
    induction bs with
    | nil => simp [List.sublist_nil.mp right]
    | cons b bs ihb =>
      rw [commonLength_cons_cons]
      split
      · -- Whatever comes first, the others are common to what follows.
        have others := ih left.tail right.tail
        rw [List.length_tail, List.tail_cons] at others
        omega
      · rename_i different
        cases left with
        | cons _ left => exact le_max_of_le_left (ih left right)
        | cons_cons _ rest =>
          cases right with
          | cons _ right => exact le_max_of_le_right (ihb right)
          | cons_cons _ _ => exact absurd rfl different

/-- **The length found is that of a longest common subsequence.** -/
theorem isGreatest_commonLength (as bs : List Char) :
    IsGreatest (commonLengths as bs) (commonLength as bs) := by
  refine ⟨commonLength_mem as bs, ?_⟩
  rintro n ⟨common, left, right, rfl⟩
  exact length_le_commonLength left right

/-- The share that a longest common subsequence has in two words. -/
def IsShare (a b : String) (share : Rat) : Prop :=
  ∃ n, IsGreatest (commonLengths a.toList b.toList) n ∧
    share = (2 * n : Nat) / (a.length + b.length : Nat)

/-- Different words are as similar as the share of what they have in common. -/
theorem isShare_similarity {a b : String} (h : a ≠ b) : IsShare a b (similarity a b) := by
  have inhabited : a.length + b.length ≠ 0 := by
    intro none
    obtain ⟨left, right⟩ := Nat.add_eq_zero_iff.mp none
    exact h ((String.length_eq_zero_iff.mp left).trans (String.length_eq_zero_iff.mp right).symm)
  refine ⟨_, isGreatest_commonLength _ _, ?_⟩
  rw [similarity, if_neg inhabited, Rat.mkRat_eq_div]
  rfl

end Text

/-! ### The best candidate -/

namespace Grammar

variable {name : String}

/-- The best of the candidates with its similarity: the first of the most similar ones, or none if
none is similar enough. -/
def Best (name : String) (candidates : List String) : Option (Rat × String) → Prop
  | none => ∀ c ∈ candidates, Text.similarity name c < minSimilarity
  | some (score, best) => score = Text.similarity name best ∧ minSimilarity ≤ score ∧
      ∃ before after, candidates = before ++ best :: after ∧
        (∀ c ∈ before, Text.similarity name c < score) ∧
        ∀ c ∈ after, Text.similarity name c ≤ score

/-- No candidate is better than the best. -/
theorem Best.le {candidates : List String} {score : Rat} {best : String}
    (h : Best name candidates (some (score, best))) {c : String} (hc : c ∈ candidates) :
    Text.similarity name c ≤ score := by
  obtain ⟨rfl, -, before, after, rfl, lower, least⟩ := h
  rcases List.mem_append.mp hc with hc | hc
  · exact (lower c hc).le
  rcases List.mem_cons.mp hc with rfl | hc
  · exact le_rfl
  · exact least c hc

/-- A candidate that is not better changes nothing. -/
theorem Best.keep {candidates : List String} {score : Rat} {best candidate : String}
    (h : Best name candidates (some (score, best)))
    (le : Text.similarity name candidate ≤ score) :
    Best name (candidates ++ [candidate]) (some (score, best)) := by
  obtain ⟨rfl, enough, before, after, rfl, lower, least⟩ := h
  refine ⟨rfl, enough, before, after ++ [candidate], by simp, lower, ?_⟩
  exact List.forall_mem_append.mpr ⟨least, List.forall_mem_singleton.mpr le⟩

/-- A candidate that is better than all others is the best. -/
theorem best_last {candidates : List String} {candidate : String}
    (enough : minSimilarity ≤ Text.similarity name candidate)
    (lower : ∀ c ∈ candidates, Text.similarity name c < Text.similarity name candidate) :
    Best name (candidates ++ [candidate])
      (some (Text.similarity name candidate, candidate)) :=
  ⟨rfl, enough, candidates, [], rfl, lower, by simp⟩

/-- **One more candidate.** It becomes the best only if it is similar enough and more similar than
the best so far. -/
theorem Best.better {candidates : List String} {best : Option (Rat × String)}
    (h : Best name candidates best) (candidate : String) :
    Best name (candidates ++ [candidate]) (Grammar.better name best candidate) := by
  rw [Grammar.better.eq_def]
  rcases best with _ | ⟨score, best⟩ <;> dsimp only
  · split
    · rename_i low
      exact List.forall_mem_append.mpr ⟨h, List.forall_mem_singleton.mpr low⟩
    · rename_i enough
      exact best_last (not_lt.mp enough) fun c hc => (h c hc).trans_le (not_lt.mp enough)
  · split
    · rename_i low
      exact h.keep (low.trans_le h.2.1).le
    rename_i enough
    split
    · rename_i higher
      exact best_last (not_lt.mp enough) fun c hc => (h.le hc).trans_lt higher
    · rename_i lower
      exact h.keep (not_lt.mp lower)

/-- Going through the candidates leads to the best. -/
theorem best_foldl {seen candidates : List String} {best : Option (Rat × String)}
    (h : Best name seen best) :
    Best name (seen ++ candidates) (candidates.foldl (Grammar.better name) best) := by
  induction candidates generalizing seen best with
  | nil => rwa [List.append_nil]
  | cons candidate rest ih =>
    rw [List.foldl_cons, List.append_cons]
    exact ih (h.better candidate)

/-! ### Names -/

/-- The production found is the first of its name. -/
theorem find?_eq_some_iff {g : Grammar} {p : Production} :
    g.find? name = some p ↔ p.name.text = name ∧
      ∃ before after, g.productions = before ++ p :: after ∧
        ∀ q ∈ before, q.name.text ≠ name := by
  simp [find?, List.find?_eq_some_iff_append]

theorem lookup_eq_ok_iff {g : Grammar} {p : Production} :
    g.lookup name = .ok p ↔ g.find? name = some p := by
  unfold lookup
  cases g.find? name <;> simp

theorem lookup_eq_error_iff {g : Grammar} {e : ProductionNotFound} :
    g.lookup name = .error e ↔ name ∉ g.names ∧ ⟨name, closest? name g.names⟩ = e := by
  rw [← find?_eq_none_iff, lookup]
  cases g.find? name <;> simp

/-- **What is found for a name.** If there are productions of that name, it is the first of them.
If there are none, the error tells the name and suggests a declared one, unless none of them is
similar enough: at least three fifths of the characters of both must be common to them. No declared
name is more similar than the one suggested, and none in front of it is as similar. -/
theorem lookup_spec (g : Grammar) (name : String) :
    ((∃ p, g.lookup name = .ok p) ↔ ∃ p ∈ g.productions, p.name.text = name) ∧
      (∀ p, g.lookup name = .ok p → g.find? name = some p ∧ p.name.text = name ∧
        ∃ before after, g.productions = before ++ p :: after ∧
          ∀ q ∈ before, q.name.text ≠ name) ∧
      ∀ e, g.lookup name = .error e → e.name = name ∧ ∃ score : String → Rat,
        (∀ c ∈ g.names, Text.IsShare name c (score c)) ∧
        (e.suggestion = none ↔ ∀ c ∈ g.names, score c < 3 / 5) ∧
        ∀ c, e.suggestion = some c → 3 / 5 ≤ score c ∧
          ∃ before after, g.names = before ++ c :: after ∧
            (∀ b ∈ before, score b < score c) ∧ ∀ b ∈ after, score b ≤ score c := by
  refine ⟨?_, ?_, ?_⟩
  · simp only [lookup_eq_ok_iff, find?, ← Option.isSome_iff_exists, List.find?_isSome,
      decide_eq_true_eq]
  · intro p found
    rw [lookup_eq_ok_iff] at found
    exact ⟨found, find?_eq_some_iff.mp found⟩
  · intro e missing
    obtain ⟨absent, rfl⟩ := lookup_eq_error_iff.mp missing
    refine ⟨rfl, Text.similarity name, ?_, ?_⟩
    · rintro c hc
      exact Text.isShare_similarity fun same => absent (same ▸ hc)
    · have start : Best name [] none := by simp [Best]
      have best : Best name ([] ++ g.names) (g.names.foldl (better name) none) := best_foldl start
      rw [List.nil_append] at best
      dsimp only [closest?]
      cases found : g.names.foldl (better name) none with
      | none =>
        rw [found] at best
        exact ⟨iff_of_true rfl best, by simp⟩
      | some scored =>
        obtain ⟨score, c⟩ := scored
        rw [found] at best
        obtain ⟨rfl, enough, before, after, names, lower, least⟩ := best
        refine ⟨iff_of_false (by simp) ?_, ?_⟩
        · intro low
          exact (low c (by simp [names])).not_ge enough
        · rintro _ ⟨⟩
          exact ⟨enough, before, after, names, lower, least⟩

/-- Two names share three of five characters with the one asked for, which is just enough, and the
first of them is suggested. -/
theorem lookup_spec_tie :
    let g : Grammar := ⟨1, [
      ⟨2, ⟨3, "Zeta"⟩, ⟨4, [⟨5, [.identifier 6 ⟨7, "a"⟩]⟩]⟩⟩,
      ⟨8, ⟨9, "ABCyy"⟩, ⟨10, [⟨11, [.identifier 12 ⟨13, "b"⟩]⟩]⟩⟩,
      ⟨14, ⟨15, "ABCzz"⟩, ⟨16, [⟨17, [.identifier 18 ⟨19, "c"⟩]⟩]⟩⟩]⟩
    ofString? "Zeta = a . ABCyy = b . ABCzz = c ." = .ok g ∧
      g.lookup "ABCxx" = .error ⟨"ABCxx", some "ABCyy"⟩ ∧ ∃ score : String → Rat,
        (∀ c ∈ g.names, Text.IsShare "ABCxx" c (score c)) ∧ 3 / 5 ≤ score "ABCyy" ∧
        ∃ before after, g.names = before ++ "ABCyy" :: after ∧
          (∀ b ∈ before, score b < score "ABCyy") ∧ ∀ b ∈ after, score b ≤ score "ABCyy" := by
  intro g
  have read : ofString? "Zeta = a . ABCyy = b . ABCzz = c ." = .ok g := by cbv
  have closest : closest? "ABCxx" g.names = some "ABCyy" := by decide +kernel
  have missing : g.lookup "ABCxx" = .error ⟨"ABCxx", some "ABCyy"⟩ :=
    lookup_eq_error_iff.mpr ⟨by decide +kernel, by rw [closest]⟩
  obtain ⟨-, score, shares, -, suggested⟩ := (lookup_spec g "ABCxx").2.2 _ missing
  exact ⟨read, missing, score, shares, suggested "ABCyy" rfl⟩

end Grammar

end Railroad
