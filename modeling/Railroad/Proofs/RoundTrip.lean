import Railroad.Proofs.Codec
import Railroad.Proofs.KeyIds
import Railroad.Proofs.NestedBrackets

/-!
Drawn diagrams as JSON texts.

* `Parts.indices_layout`: no choice that is drawn for a part has a larger index than the part has
  nodes.
* `Grammar.isWritable_draw`: so everything in a diagram can be written and read.
* `Grammar.decode?_diagram`: a diagram is read back from its texts exactly if it is not nested deeper
  than a text may be.
-/

namespace Railroad

/-! ### The sizes of parts -/

section Sizes

variable {α : Type} {size : α → Nat} {sizeAll : List α → Nat}

/-- No item counts more than all items together. -/
theorem size_le_sizeAll (cons : ∀ a rest, sizeAll (a :: rest) = size a + sizeAll rest)
    {items : List α} {a : α} (h : a ∈ items) : size a ≤ sizeAll items := by
  induction items with
  | nil => cases h
  | cons b rest ih =>
    rw [cons]
    rcases List.mem_cons.mp h with rfl | h
    · exact Nat.le_add_right _ _
    · exact Nat.le_add_left_of_le (ih h)

/-- If each item counts, there are not more of them than they count together. -/
theorem length_le_sizeAll (cons : ∀ a rest, sizeAll (a :: rest) = size a + sizeAll rest)
    (pos : ∀ a, 0 < size a) (items : List α) : items.length ≤ sizeAll items := by
  induction items with
  | nil => exact Nat.zero_le _
  | cons a rest ih =>
    have one := pos a
    rw [cons, List.length_cons]
    omega

end Sizes

theorem Expression.length_terms_le (e : Expression) : e.terms.length ≤ e.size := by
  obtain ⟨id, terms⟩ := e
  exact Nat.le_add_left_of_le (length_le_sizeAll (fun _ _ => rfl) Term.size_pos terms)

theorem Expression.size_le_of_mem {e : Expression} {t : Term} (h : t ∈ e.terms) :
    t.size ≤ e.size := by
  obtain ⟨id, terms⟩ := e
  exact Nat.le_add_left_of_le (size_le_sizeAll (fun _ _ => rfl) h)

theorem Term.size_le_of_mem {t : Term} {f : Factor} (h : f ∈ t.factors) : f.size ≤ t.size := by
  obtain ⟨id, factors⟩ := t
  exact Nat.le_add_left_of_le (size_le_sizeAll (fun _ _ => rfl) h)

theorem Factor.size_body_le (id : NodeId) (bracket : Bracket) (body : Expression) :
    body.size ≤ (bracketed id bracket body).size :=
  Nat.le_add_left _ _

theorem Grammar.size_body_le {g : Grammar} {p : Production} (h : p ∈ g.productions) :
    p.body.size ≤ g.size := by
  have body : p.body.size ≤ p.size := Nat.le_add_left _ _
  have one : p.size ≤ Production.sizeAll g.productions := size_le_sizeAll (fun _ _ => rfl) h
  exact Nat.le_add_left_of_le (Nat.le_trans body one)

/-! ### The indices of choices -/

/-- If the track is a choice, its index is at most `n`. -/
def Track.IndexUpTo (n : Nat) : Track → Prop
  | .choice index _ => index ≤ n
  | _ => True

section Indices

variable {n : Nat} {refer : String → PathKey → Track}

variable (n refer) in
/-- The indices of what is drawn of a layout are at most `n`. -/
def Layout.IndicesUpTo (l : Layout) : Prop :=
  (l.track refer).All (Track.IndexUpTo n)

variable (n refer) in
/-- The indices of what is drawn of the factor are at most `n`, wherever it stands. -/
def Factor.IndicesUpTo (f : Factor) : Prop :=
  ∀ above, (f.layout above).IndicesUpTo n refer

/-- The indices of what is drawn of a layout that is no reference are those of its parts and, if it is
a choice, its own. -/
theorem Layout.indices_node {l : Layout} (node : l.isReference = false)
    (few : ∀ options, l = .choice options → options.length ≤ n)
    (parts : ∀ part ∈ l.parts, part.IndicesUpTo n refer) : l.IndicesUpTo n refer := by
  have tracks : ∀ t ∈ l.parts.map (track refer), t.All (Track.IndexUpTo n) :=
    List.forall_mem_map.mpr parts
  rw [IndicesUpTo]
  cases l with
  | reference name path => cases node
  | choice options =>
    rw [track_node node]
    have half := Nat.le_trans (Nat.div_le_self _ 2) (few options rfl)
    exact Track.all_iff.mpr ⟨by simpa [build, Layout.parts, Track.IndexUpTo] using half, tracks⟩
  | joined items =>
    rw [track_node node]
    exact Track.all_joined (fun _ => trivial) tracks
  | returned items =>
    rw [track_node node]
    exact Track.all_joined (fun _ => trivial) fun t ht => tracks t (List.mem_reverse.mp ht)
  | compacted round before after =>
    rw [track, trackAll_eq_map, trackAll_eq_map]
    refine Track.all_joined (fun _ => trivial) fun t ht => tracks t ?_
    simp only [Layout.parts, List.map_cons, List.map_append, List.mem_append, List.mem_cons] at ht ⊢
    tauto
  | noted note item => exact tracks _ (List.mem_singleton_self _)
  | terminal text path | skip | sequence items | optional item | zeroOrMore item
  | oneOrMore item | loop item back =>
    rw [track_node node]
    exact Track.all_iff.mpr ⟨trivial, tracks⟩

theorem Factor.indices_layouts {factors : List Factor} (h : ∀ f ∈ factors, f.IndicesUpTo n refer)
    (above : List NodeId) : ∀ l ∈ factors.map (Factor.layout above), l.IndicesUpTo n refer :=
  List.forall_mem_map.mpr fun f hf => h f hf above

/-- The indices of what is drawn of a term, whichever way it is compacted. -/
theorem Term.indices_layout {t : Term} (each : ∀ f ∈ t.factors, f.IndicesUpTo n refer)
    (nested : ∀ id body, .bracketed id .repetition body ∈ t.factors →
      (∀ above, (body.layout above).IndicesUpTo n refer) ∧
        ∀ inner ∈ body.terms, ∀ f ∈ inner.factors, f.IndicesUpTo n refer)
    (above : List NodeId) : (t.layout above).IndicesUpTo n refer := by
  -- What is noted of a term is not drawn.
  suffices ∃ note item, t.layout above = .noted note item ∧ item.IndicesUpTo n refer by
    obtain ⟨note, item, layout, inside⟩ := this
    rw [layout]
    exact Layout.indices_node rfl (by simp) (List.forall_mem_singleton.mpr inside)
  cases t.view with
  | plain plain =>
    have factors := Factor.indices_layouts each (above ++ [t.id])
    obtain ⟨arranged, layout, rfl | rfl⟩ := t.layout_plain above plain
    · exact ⟨_, _, layout, Layout.indices_node rfl (by simp) factors⟩
    · exact ⟨_, _, layout, Layout.indices_node rfl (by simp) factors⟩
  | @fullMatch keep dropped after id body inner all decided terms pairs =>
    obtain ⟨repetition, keeps, -, afters⟩ := Term.mem_of_cut all
    refine ⟨_, _, t.layout_fullMatch above all decided, Layout.indices_node rfl (by simp) ?_⟩
    refine List.forall_mem_cons.mpr ⟨?_, List.forall_mem_append.mpr ⟨?_, ?_⟩⟩
    · have whole := (nested id body repetition).1 (above ++ [t.id] ++ [id])
      exact Layout.indices_node rfl (by simp) (List.forall_mem_singleton.mpr whole)
    · exact Factor.indices_layouts (fun f hf => each f (keeps f hf)) _
    · exact Factor.indices_layouts (fun f hf => each f (afters f hf)) _
  | @separator keep dropped head tail after id body inner all decided terms split =>
    obtain ⟨repetition, keeps, -, afters⟩ := Term.mem_of_cut all
    refine ⟨_, _, t.layout_separator above all terms split decided,
      Layout.indices_node rfl (by simp) ?_⟩
    refine List.forall_mem_cons.mpr ⟨?_, List.forall_mem_append.mpr ⟨?_, ?_⟩⟩
    · have pieces := (nested id body repetition).2 inner (by simp [terms])
      rw [split, List.forall_mem_append] at pieces
      refine Layout.indices_node rfl (by simp) (List.forall_mem_cons.mpr ⟨?_, List.forall_mem_singleton.mpr ?_⟩)
      · exact Layout.indices_node rfl (by simp) (Factor.indices_layouts pieces.2 _)
      · exact Layout.indices_node rfl (by simp) (Factor.indices_layouts pieces.1 _)
    · exact Factor.indices_layouts (fun f hf => each f (keeps f hf)) _
    · exact Factor.indices_layouts (fun f hf => each f (afters f hf)) _

/-- The indices of what is drawn of brackets, as a whole or as ways back. -/
theorem Factor.indices_bracketed {id : NodeId} {bracket : Bracket} {body : Expression}
    (few : body.terms.length ≤ n) (whole : ∀ above, (body.layout above).IndicesUpTo n refer)
    (pieces : ∀ t ∈ body.terms, ∀ f ∈ t.factors, f.IndicesUpTo n refer) :
    (Factor.bracketed id bracket body).IndicesUpTo n refer := by
  intro above
  have inside := List.forall_mem_singleton.mpr (whole (above ++ [id]))
  cases bracket with
  | group =>
    rw [Factor.layout_group]
    exact Layout.indices_node rfl (by simp) inside
  | option =>
    rw [Factor.layout_option]
    exact Layout.indices_node rfl (by simp) inside
  | repetition =>
    rw [Factor.layout_repetition]
    split
    · -- A loop over nothing, with a choice of ways back.
      refine Layout.indices_node rfl (by simp) (List.forall_mem_singleton.mpr ?_)
      refine Layout.indices_node rfl (by simp) (List.forall_mem_cons.mpr ⟨?_, ?_⟩)
      · exact Layout.indices_node rfl (by simp) (by simp [Layout.parts])
      refine List.forall_mem_singleton.mpr (Layout.indices_node rfl ?_ ?_)
      · rintro _ ⟨⟩
        rw [List.length_map]
        exact few
      · refine List.forall_mem_map.mpr fun t ht => ?_
        exact Layout.indices_node rfl (by simp) (Factor.indices_layouts (pieces t ht) _)
    · exact Layout.indices_node rfl (by simp) inside

/-- **No index is larger than the number of nodes of a part.** -/
theorem Parts.indices_layout (h : ∀ name path, (refer name path).All (Track.IndexUpTo n)) :
    (∀ e : Expression, e.size ≤ n → ∀ above, (e.layout above).IndicesUpTo n refer) ∧
    (∀ t : Term, t.size ≤ n → ∀ above, (t.layout above).IndicesUpTo n refer) ∧
    ∀ f : Factor, f.size ≤ n → f.IndicesUpTo n refer := by
  refine Parts.induction_nested ?expression ?term ?identifier ?literal ?bracketed
  case expression =>
    intro e ih small above
    have terms : ∀ t ∈ e.terms, (t.layout (above ++ [e.id])).IndicesUpTo n refer :=
      fun t ht => ih t ht (Nat.le_trans (Expression.size_le_of_mem ht) small) _
    rw [Expression.layout_eq]
    split
    · rename_i only single
      exact terms only (by simp [single])
    · refine Layout.indices_node rfl ?_ (List.forall_mem_map.mpr terms)
      rintro _ ⟨⟩
      rw [List.length_map]
      exact Nat.le_trans e.length_terms_le small
  case term =>
    intro t ih nested small above
    have each : ∀ f ∈ t.factors, f.size ≤ n :=
      fun f hf => Nat.le_trans (Term.size_le_of_mem hf) small
    refine Term.indices_layout (fun f hf => ih f hf (each f hf)) ?_ above
    intro id body repetition
    have bodySmall := Nat.le_trans (Factor.size_body_le id .repetition body) (each _ repetition)
    obtain ⟨whole, pieces⟩ := nested id .repetition body repetition
    refine ⟨whole bodySmall, fun inner hinner f hf => pieces inner hinner f hf ?_⟩
    have innerSmall := Nat.le_trans (Expression.size_le_of_mem hinner) bodySmall
    exact Nat.le_trans (Term.size_le_of_mem hf) innerSmall
  case identifier =>
    intro id name _ above
    rw [Factor.layout_identifier]
    split
    · exact h _ _
    · exact Layout.indices_node rfl (by simp) (by simp [Layout.parts])
  case literal =>
    intro id l _ above
    exact Layout.indices_node rfl (by simp [Factor.layout_literal]) (by simp [Factor.layout_literal, Layout.parts])
  case bracketed =>
    intro id bracket body whole pieces small
    have bodySmall := Nat.le_trans (Factor.size_body_le id bracket body) small
    refine Factor.indices_bracketed (Nat.le_trans body.length_terms_le bodySmall) (whole bodySmall) ?_
    intro t ht f hf
    have termSmall := Nat.le_trans (Expression.size_le_of_mem ht) bodySmall
    exact pieces t ht f hf (Nat.le_trans (Term.size_le_of_mem hf) termSmall)

end Indices

/-! ### Diagrams -/

namespace Grammar

variable {g : Grammar} {selected : PathKey → Bool}

theorem indices_shown (selected : PathKey → Bool) (levels : Nat) (name : String) (path : PathKey) :
    (g.shown selected levels name path).All (Track.IndexUpTo g.size) := by
  have closed : ∀ name path, (Track.nonTerminal name path).All (Track.IndexUpTo g.size) :=
    fun _ _ => Track.all_iff.mpr ⟨trivial, by simp [Track.children]⟩
  induction levels generalizing name path with
  | zero => exact closed name path
  | succ levels ih =>
    unfold shown
    split
    · cases found : g.find? name with
      | none => exact closed name path
      | some p =>
        have body := size_body_le (List.mem_of_find?_eq_some found)
        have inside := (Parts.indices_layout ih).1 p.body body path.ids
        exact Track.all_iff.mpr ⟨trivial, List.forall_mem_singleton.mpr inside⟩
    · exact closed name path

/-- **Everything in a diagram can be written and read**, if ids were given out from the first one on
and there are not more nodes than ids that a key may hold. -/
theorem isWritable_draw (numbered : g.number 0 = g) (few : g.walk.length ≤ maxNodeId)
    {start : Option String} {d : Diagram} (drawn : (g.draw start selected).result = .ok d) :
    d.root.IsWritable := by
  have keys : ∀ key ∈ d.root.nodes.filterMap Track.path?, key.IsWritable :=
    fun key => isWritable_of_mem_keys numbered few drawn
  have indices : d.root.All (Track.IndexUpTo g.size) := by
    obtain ⟨p, started, rfl⟩ := draw_eq_ok drawn
    have body := size_body_le (mem_of_startProduction started)
    have inside := (Parts.indices_layout (indices_shown selected maxDepth)).1 p.body body [p.id]
    exact Track.all_iff.mpr ⟨trivial, List.forall_mem_singleton.mpr inside⟩
  intro node hnode
  have listed : ∀ key, node.path? = some key → key.IsWritable :=
    fun key same => keys key (List.mem_filterMap.mpr ⟨node, hnode, same⟩)
  cases node with
  | choice index options =>
    have size : g.walk.length = g.size := by
      rw [← numbered, length_walk_number, size_number]
    have small : index ≤ g.size := indices _ hnode
    rw [Track.HasWritableLabels]
    have limits : maxNodeId ≤ Track.maxIndex := by decide
    exact Nat.le_trans small (Nat.le_trans (size ▸ few) limits)
  | terminal text path | nonTerminal text path | group text path item => exact listed path rfl
  | _ => trivial

/-- **A diagram is read back from both of its texts exactly if it is not nested too deep.** For an
accepted text whose nodes are not more than the ids that a key may hold, nothing but the nesting of
the diagram decides whether what is written of it can be read. -/
theorem decode?_diagram {text : String} {g : Grammar} (read : ofString? text = .ok g)
    (few : g.walk.length ≤ maxNodeId) {start : Option String} {expanded : List PathKey}
    {d : Diagram} (drawn : (g.diagram start expanded).result = .ok d) :
    Diagram.decode? d.toJson.compact =
        (if d.toJson.nesting ≤ Json.maxTextNesting then some d else none) ∧
      Diagram.decode? d.toJson.pretty =
        (if d.toJson.nesting ≤ Json.maxTextNesting then some d else none) := by
  obtain ⟨tokens, last, scanned, tree⟩ := ofString?_eq_ok_iff.mp read
  rw [diagram_eq] at drawn
  have writable := isWritable_draw tree.numbered few drawn
  exact ⟨Diagram.decode?_compact writable, Diagram.decode?_pretty writable⟩

/-- A name inside 62 pairs of brackets is accepted and drawn, but its diagram is nested too deep to be
read back from either text. -/
theorem decode?_diagram_nested :
    ∃ g d, ofString? ("A = " ++
        String.ofList (List.replicate 62 '(' ++ 'b' :: List.replicate 62 ')') ++ " .") = .ok g ∧
      g.walk.length ≤ maxNodeId ∧ (g.diagram none []).result = .ok d ∧ d.toJson.nesting = 128 ∧
      Diagram.decode? d.toJson.compact = none ∧ Diagram.decode? d.toJson.pretty = none := by
  obtain ⟨d, drawn, deep⟩ := exists_diagram_nested 62
  have read := ofString?_nested (n := 62) (by decide)
  have few : ((nested 62).number 0).walk.length ≤ maxNodeId := by
    rw [length_walk_number, size_nested]
    decide
  obtain ⟨compact, pretty⟩ := decode?_diagram read few drawn
  have tooDeep : ¬ d.toJson.nesting ≤ Json.maxTextNesting := by
    rw [deep]
    decide
  rw [if_neg tooDeep] at compact pretty
  exact ⟨_, d, read, few, drawn, deep, compact, pretty⟩

end Grammar

end Railroad
