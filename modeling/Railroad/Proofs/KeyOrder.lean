import Mathlib.Data.List.Sort
import Railroad.Proofs.Keys

/-!
Sorted keys.

* `PathKey.mem_sorted`: sorting loses and adds no key.
* `PathKey.pairwise_sorted`: the texts of sorted keys are ascending, and each is written once.
* `PathKey.eq_of_mem_iff`: so there is one such list for each set of keys.
-/

namespace Railroad

namespace PathKey

theorem mem_dropRepeats {key : PathKey} {keys : List PathKey} :
    key ∈ dropRepeats keys ↔ key ∈ keys := by
  induction keys using dropRepeats.induct with
  | case1 first rest ih =>
    rw [dropRepeats, if_pos rfl, ih]
    simp
  | case2 first second rest different ih =>
    rw [dropRepeats, if_neg different, List.mem_cons, ih, ← List.mem_cons]
  | case3 keys short => rw [dropRepeats.eq_2 keys short]

/-- Sorting loses and adds no key. -/
theorem mem_sorted {key : PathKey} {keys : List PathKey} : key ∈ sorted keys ↔ key ∈ keys := by
  rw [sorted_eq, mem_dropRepeats, List.mem_mergeSort]

/-- Of ascending keys, those stay that are strictly ascending: equal texts are those of equal keys. -/
theorem pairwise_dropRepeats {keys : List PathKey}
    (ascending : keys.Pairwise fun k l => k.text ≤ l.text) :
    (dropRepeats keys).Pairwise fun k l => k.text < l.text := by
  induction keys using dropRepeats.induct with
  | case1 first rest ih =>
    rw [dropRepeats, if_pos rfl]
    exact ih ascending.tail
  | case2 first second rest different ih =>
    rw [dropRepeats, if_neg different]
    obtain ⟨least, ordered⟩ := List.pairwise_cons.mp ascending
    refine List.pairwise_cons.mpr ⟨fun key hkey => ?_, ih ordered⟩
    have below : first.text < second.text :=
      Std.lt_of_le_of_ne (least second List.mem_cons_self) fun same =>
        different (text_injective same)
    rcases List.mem_cons.mp (mem_dropRepeats.mp hkey) with rfl | hkey
    · exact below
    · exact Std.lt_of_lt_of_le below ((List.pairwise_cons.mp ordered).1 key hkey)
  | case3 keys short =>
    rw [dropRepeats.eq_2 keys short]
    match keys, short with
    | [], _ => exact List.Pairwise.nil
    | [key], _ => exact List.pairwise_singleton _ _
    | k :: l :: rest, short => cases short k l rest rfl

/-- **The texts of sorted keys are strictly ascending.** -/
theorem pairwise_sorted (keys : List PathKey) :
    (sorted keys).Pairwise fun k l => k.text < l.text := by
  rw [sorted_eq]
  apply pairwise_dropRepeats
  have ordered := @List.pairwise_mergeSort _ (fun k l : PathKey => decide (k.text ≤ l.text))
    (by simpa using fun _ _ _ => String.le_trans) (by simpa using fun _ _ => String.le_total _ _) keys
  simpa using ordered

/-- Ascending lists of the same keys are equal. -/
theorem eq_of_mem_iff {keys keys' : List PathKey}
    (ascending : keys.Pairwise fun k l => k.text < l.text)
    (ascending' : keys'.Pairwise fun k l => k.text < l.text)
    (same : ∀ key, key ∈ keys ↔ key ∈ keys') : keys = keys' := by
  have irrefl : Std.Irrefl fun k l : PathKey => k.text < l.text := ⟨fun _ => String.lt_irrefl _⟩
  have antisymm : Std.Antisymm fun k l : PathKey => k.text < l.text :=
    ⟨fun _ _ less greater => absurd greater (String.lt_asymm less)⟩
  exact List.Pairwise.eq_of_mem_iff ascending ascending' same

/-- Keys that ascend are sorted already. -/
theorem sorted_of_pairwise {keys : List PathKey}
    (ascending : keys.Pairwise fun k l => k.text < l.text) : sorted keys = keys :=
  eq_of_mem_iff (pairwise_sorted keys) ascending fun _ => mem_sorted

end PathKey

end Railroad
