/-!
Lists that are read item by item, and are read if each item is.

* `mapM_eq_some_map`: if each item is read, so is the list. `mapM_map_eq_some`: so items that are
  written one by one are read back as a list.
* `exists_of_mem_mapM`: whatever is on a list that was read was read from an item.
* `exists_mapM_of_perm`: items in another order are read, in that order.
-/

namespace Railroad

variable {α β : Type} {read? : α → Option β} {items : List α} {results : List β}

/-- Items that are read one by one are read as a list. -/
theorem mapM_eq_some_map {value : α → β} (h : ∀ item ∈ items, read? item = some (value item)) :
    items.mapM read? = some (items.map value) := by
  induction items with
  | nil => rfl
  | cons item rest ih =>
    obtain ⟨first, others⟩ := List.forall_mem_cons.mp h
    rw [List.mapM_cons, first, ih others]
    rfl

/-- What is read back one by one is read back as a list. -/
theorem mapM_map_eq_some {write : β → α} {written : List β}
    (h : ∀ item ∈ written, read? (write item) = some item) :
    (written.map write).mapM read? = some written := by
  have read := mapM_eq_some_map h
  rw [List.map_id'] at read
  rw [List.mapM_map, ← read]
  rfl

theorem mapM_cons_eq_some {item : α} :
    (item :: items).mapM read? = some results ↔
      ∃ first, read? item = some first ∧
        ∃ rest, items.mapM read? = some rest ∧ first :: rest = results := by
  simp only [List.mapM_cons, Option.bind_eq_bind, Option.bind_eq_some_iff, Option.pure_def,
    Option.some.injEq]

/-- What is read as a list is read one by one. -/
theorem exists_of_mem_mapM (h : items.mapM read? = some results) {result : β}
    (member : result ∈ results) : ∃ item ∈ items, read? item = some result := by
  induction items generalizing results with
  | nil =>
    obtain rfl := Option.some.inj h
    cases member
  | cons item rest ih =>
    obtain ⟨first, here, others, more, rfl⟩ := mapM_cons_eq_some.mp h
    rcases List.mem_cons.mp member with rfl | member
    · exact ⟨item, List.mem_cons_self, here⟩
    · obtain ⟨item', hitem, found⟩ := ih more member
      exact ⟨item', List.mem_cons_of_mem _ hitem, found⟩

/-- What is read one by one is read in any order. -/
theorem exists_mapM_of_perm {items' : List α} (same : items.Perm items')
    (h : items.mapM read? = some results) :
    ∃ results', items'.mapM read? = some results' ∧ results.Perm results' := by
  induction same generalizing results with
  | nil => exact ⟨results, h, .refl _⟩
  | cons a _ ih =>
    obtain ⟨b, here, rest, more, rfl⟩ := mapM_cons_eq_some.mp h
    obtain ⟨rest', more', moved⟩ := ih more
    exact ⟨b :: rest', mapM_cons_eq_some.mpr ⟨b, here, rest', more', rfl⟩, moved.cons b⟩
  | swap a b items =>
    obtain ⟨second, readSecond, _, others, rfl⟩ := mapM_cons_eq_some.mp h
    obtain ⟨first, readFirst, rest, more, rfl⟩ := mapM_cons_eq_some.mp others
    have moved := mapM_cons_eq_some.mpr ⟨second, readSecond, rest, more, rfl⟩
    exact ⟨first :: second :: rest, mapM_cons_eq_some.mpr ⟨first, readFirst, _, moved, rfl⟩,
      .swap first second rest⟩
  | trans _ _ ih ih' =>
    obtain ⟨middle, read, moved⟩ := ih h
    obtain ⟨results', read', moved'⟩ := ih' read
    exact ⟨results', read', moved.trans moved'⟩

end Railroad
