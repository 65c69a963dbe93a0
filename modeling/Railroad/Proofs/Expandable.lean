import Railroad.Proofs.Collapsing
import Railroad.Proofs.KeyOrder

/-!
The keys that can be opened.

* `Grammar.diagram_expandablePaths`: the keys that can be opened are those that the diagram for all
  of them opens, and they are listed exactly if there is a diagram for any keys.
-/

namespace Railroad

namespace Grammar

variable {g : Grammar} {start : Option String}

/-- The keys that can be opened are those that are opened while everything is. -/
theorem result_expandablePaths_eq_ok {paths : List PathKey} :
    (g.expandablePaths start).result = .ok paths ↔
      (g.draw start fun _ => true).Succeeds ∧
        PathKey.sorted (g.draw start fun _ => true).openedKeys = paths := by
  rw [expandablePaths, Traced.result_map_eq_ok]
  exact exists_and_right

theorem result_expandablePaths_eq_error {e : DiagramError} :
    (g.expandablePaths start).result = .error e ↔
      (g.draw start fun _ => true).result = .error e := by
  rw [expandablePaths, Traced.result_map]
  cases (g.draw start fun _ => true).result <;> simp [Except.map]

/-- With all keys on the list that are opened while everything is, everything is. -/
theorem diagram_of_openedKeys {expanded : List PathKey}
    (all : ∀ key ∈ (g.draw start fun _ => true).openedKeys, key ∈ expanded) :
    g.diagram start expanded = g.draw start fun _ => true := by
  rw [diagram_eq]
  apply draw_of_openedKeys
  · exact fun _ _ => rfl
  · simpa using all

/-- There is a diagram for any keys if there is one with everything opened. -/
theorem succeeds_diagram (h : (g.draw start fun _ => true).Succeeds) (expanded : List PathKey) :
    (g.diagram start expanded).Succeeds := by
  rw [diagram_eq]
  exact succeeds_draw_of_fewer (fun _ _ => rfl) h

/-- With everything opened, a reference is left closed only if it is too deep. -/
theorem maxDepth_le_of_mem_nodes {d : Diagram}
    (drawn : (g.draw start fun _ => true).result = .ok d) {name : String} {path : PathKey}
    (closed : .nonTerminal name path ∈ d.root.nodes) : maxDepth ≤ path.depth := by
  have shown : (path, .closed name) ∈ d.root.references := by
    refine List.mem_filter.mpr ⟨?_, rfl⟩
    exact List.mem_filterMap.mpr ⟨_, closed, rfl⟩
  by_contra short
  obtain ⟨label, opened⟩ := (opened_iff_of_draw drawn shown).mpr ⟨Nat.not_le.mp short, rfl⟩
  cases opened

/-- **The keys that can be opened and the diagrams agree.** There is a list of them exactly if there
is a diagram for any keys. With all of them, it opens just these, every reference that it leaves
closed is too deep, and more keys make no difference. If there is no list, there is no diagram for
some keys either, for the same reason. -/
theorem diagram_expandablePaths (g : Grammar) (start : Option String) :
    ((∃ paths, (g.expandablePaths start).result = .ok paths) ↔
        ∀ expanded, ∃ d, (g.diagram start expanded).result = .ok d) ∧
      (∀ paths, (g.expandablePaths start).result = .ok paths →
        (∃ d, (g.diagram start paths).result = .ok d ∧
          (∀ key, key ∈ d.root.groupPaths ↔ key ∈ paths) ∧
          ∀ name path, .nonTerminal name path ∈ d.root.nodes → maxDepth ≤ path.depth) ∧
        (∀ expanded d, (g.diagram start expanded).result = .ok d →
          ∀ key ∈ d.root.groupPaths, key ∈ paths) ∧
        ∀ expanded, (∀ key ∈ paths, key ∈ expanded) →
          g.diagram start expanded = g.diagram start paths) ∧
      ∀ e, (g.expandablePaths start).result = .error e →
        ∃ expanded, (g.diagram start expanded).result = .error e := by
  let everything := g.draw start fun _ => true
  have whole : g.diagram start everything.openedKeys = everything :=
    diagram_of_openedKeys fun _ hkey => hkey
  refine ⟨⟨?_, ?_⟩, ?_, ?_⟩
  · rintro ⟨paths, listed⟩ expanded
    exact succeeds_diagram (result_expandablePaths_eq_ok.mp listed).1 expanded
  · intro each
    have drawn : everything.Succeeds := whole ▸ each everything.openedKeys
    exact ⟨_, result_expandablePaths_eq_ok.mpr ⟨drawn, rfl⟩⟩
  · intro paths listed
    obtain ⟨⟨d, drawn⟩, rfl⟩ := result_expandablePaths_eq_ok.mp listed
    have full : g.diagram start (PathKey.sorted everything.openedKeys) = everything :=
      diagram_of_openedKeys fun _ hkey => PathKey.mem_sorted.mpr hkey
    have opened : ∀ key, key ∈ d.root.groupPaths ↔ key ∈ PathKey.sorted everything.openedKeys := by
      intro key
      rw [PathKey.mem_sorted, mem_openedKeys_iff drawn]
    refine ⟨⟨d, full ▸ drawn, opened, fun _ _ => maxDepth_le_of_mem_nodes drawn⟩, ?_, ?_⟩
    · intro expanded d' drawn' key hkey
      rw [diagram_eq] at drawn'
      exact (opened key).mp (groupPaths_mono (fun _ _ => rfl) drawn drawn' hkey)
    · intro expanded covers
      rw [full]
      exact diagram_of_openedKeys fun key hkey => covers key (PathKey.mem_sorted.mpr hkey)
  · intro e failed
    refine ⟨everything.openedKeys, ?_⟩
    rw [whole]
    exact result_expandablePaths_eq_error.mp failed

set_option maxRecDepth 4000 in
/-- A production that refers to itself can be opened seven times, until its key is too long. -/
theorem diagram_expandablePaths_recursive :
    let g : Grammar := ⟨1, [⟨2, ⟨3, "A"⟩,
      ⟨4, [⟨5, [.literal 6 ⟨7, "x"⟩, .identifier 8 ⟨9, "A"⟩]⟩]⟩⟩]⟩
    let key (n : Nat) : PathKey := ⟨2 :: (List.replicate n [4, 5, 8, 9]).flatten⟩
    let paths := [key 1, key 2, key 3, key 4, key 5, key 6, key 7]
    Grammar.ofString? "A = \"x\" A ." = .ok g ∧ (g.expandablePaths none).result = .ok paths ∧
      (∃ d, (g.diagram none paths).result = .ok d ∧
        (∀ key, key ∈ d.root.groupPaths ↔ key ∈ paths) ∧
        ∀ name path, .nonTerminal name path ∈ d.root.nodes → maxDepth ≤ path.depth) ∧
      (∀ expanded d, (g.diagram none expanded).result = .ok d →
        ∀ key ∈ d.root.groupPaths, key ∈ paths) ∧
      ∀ expanded, (∀ key ∈ paths, key ∈ expanded) →
        g.diagram none expanded = g.diagram none paths := by
  intro g key paths
  have read : Grammar.ofString? "A = \"x\" A ." = .ok g := by cbv
  have drawn : (g.draw none fun _ => true).Succeeds := ⟨_, by cbv⟩
  have opened : (g.draw none fun _ => true).openedKeys = paths := by cbv
  have listed : (g.expandablePaths none).result = .ok paths :=
    result_expandablePaths_eq_ok.mpr
      ⟨drawn, opened ▸ PathKey.sorted_of_pairwise (by decide +kernel)⟩
  obtain ⟨-, agree, -⟩ := diagram_expandablePaths g none
  exact ⟨read, listed, agree paths listed⟩

end Grammar

end Railroad
