import Railroad.Proofs.Collapsing
import Railroad.Proofs.DrawingOrder

/-!
Diagrams that cannot be drawn: those in which a reference is opened whose name is not declared.

* `Place.Step.unique`, `Place.chain_through`: in an accepted text the ids of a chain decide where it
  leads, so a chain passes the places of all its beginnings.
* `Place.chain_of_above`: a chain needs no more opened than what lies above its end.
* `Grammar.mem_occurrences_iff`: chains lead to the references that are drawn, and to no others.
* `Grammar.unresolved_iff`, `Grammar.exists_error_draw_iff`: so drawing fails for a reference that a
  chain leads to, and what lies above that reference can be opened.
* `Grammar.diagram_error_iff`: when a diagram fails, and for which reference.
-/

namespace Railroad

/-! ### Chains with the same ids -/

section Chains

variable {g : Grammar} {selected : PathKey → Bool}

/-- The ids of the part that a chain has led to were given out in order. -/
def Place.Numbered : Place → Prop
  | .expression e _ => e.Numbered
  | .term t _ => t.Numbered
  | .factor f _ => f.Numbered
  | .reference _ | .terminal _ => True

theorem Place.Step.numbered (numbered : ∀ p ∈ g.productions, p.body.Numbered)
    {here next : List NodeId × Place} (step : Place.Step g selected here next)
    (h : here.2.Numbered) : next.2.Numbered := by
  cases step with
  | term ht => exact Expression.Numbered.term h ht
  | factor found _ => exact Term.Numbered.factor h (List.mem_of_getElem? found)
  | body => exact Factor.Numbered.body h
  | literal | name _ | reference _ => trivial
  | opened opens => exact numbered _ (List.mem_of_find?_eq_some opens.2.2)

/-- Items that are told apart by their ids are at one place if they have one id. -/
theorem eq_of_getElem?_of_id_eq {α : Type} {id : α → NodeId} {items : List α}
    (nodup : (items.map id).Nodup) {i j : Nat} {a b : α} (ha : items[i]? = some a)
    (hb : items[j]? = some b) (same : id a = id b) : i = j := by
  have atI : (items.map id)[i]? = some (id a) := by rw [List.getElem?_map, ha]; rfl
  have atJ : (items.map id)[j]? = some (id a) := by rw [List.getElem?_map, hb, same]; rfl
  obtain ⟨inside, -⟩ := List.getElem?_eq_some_iff.mp atI
  exact (List.getElem?_inj inside nodup).mp (atI.trans atJ.symm)

/-- **A step is decided by its id.** -/
theorem Place.Step.unique {here next next' : List NodeId × Place}
    (step : Place.Step g selected here next) (step' : Place.Step g selected here next')
    (numbered : here.2.Numbered) (same : next.1 = next'.1) : next = next' := by
  cases step with
  | @term ids e manner t ht =>
    obtain @⟨_, _, _, t', ht'⟩ := step'
    have id : t.id = t'.id := by simpa using same
    rw [List.inj_on_of_nodup_map (Expression.Numbered.nodup numbered) ht ht' id]
  | @factor ids t manner i f found =>
    cases step' with
    | @factor _ _ _ j f' found' =>
      have id : f.id = f'.id := by simpa using same
      obtain rfl := eq_of_getElem?_of_id_eq (Term.Numbered.nodup numbered) found found' id
      obtain rfl := Option.some.inj (found.symm.trans found')
      rfl
  | body | literal =>
    cases step'
    rfl
  | name small =>
    cases step' with
    | name _ => rfl
    | reference capital => cases small.symm.trans capital
  | reference capital =>
    cases step' with
    | name small => cases small.symm.trans capital
    | reference _ => rfl
  | opened opens =>
    cases step' with
    | opened opens' =>
      obtain rfl := Option.some.inj (opens.2.2.symm.trans opens'.2.2)
      rfl

/-- **A chain passes the places of all its beginnings**: if another chain from the same start has
come to a beginning of its ids, it goes on from there. -/
theorem Place.chain_through (numbered : ∀ p ∈ g.productions, p.body.Numbered)
    {here middle there : List NodeId × Place}
    (first : Relation.ReflTransGen (Place.Step g selected) here middle)
    (whole : Relation.ReflTransGen (Place.Step g selected) here there) (h : here.2.Numbered)
    (beginning : middle.1 <+: there.1) :
    Relation.ReflTransGen (Place.Step g selected) middle there := by
  induction first using Relation.ReflTransGen.head_induction_on with
  | refl => exact whole
  | @head here next step rest ih =>
    obtain ⟨id, ids⟩ := step.ids_eq
    have longer : next.1 <+: there.1 := (Place.prefix_of_chain rest).trans beginning
    rcases Relation.ReflTransGen.cases_head whole with rfl | ⟨next', step', rest'⟩
    · have length := longer.length_le
      rw [ids, List.length_append, List.length_singleton] at length
      omega
    · -- Both go on by the id that comes next in the longer chain.
      obtain ⟨id', ids'⟩ := step'.ids_eq
      have same : next.1 = next'.1 := by
        refine (List.prefix_of_prefix_length_le longer (Place.prefix_of_chain rest') ?_).eq_of_length
          ?_ <;> simp [ids, ids']
      obtain rfl := step.unique step' h same
      exact ih rest' (step.numbered numbered h)

/-! ### What lies above a key -/

/-- The keys on a list that lead to a key: its proper beginnings. -/
def PathKey.above (keys : List PathKey) (key : PathKey) : List PathKey :=
  keys.filter fun k => k.ids <+: key.ids ∧ k ≠ key

theorem PathKey.mem_above {keys : List PathKey} {key k : PathKey} :
    k ∈ above keys key ↔ k ∈ keys ∧ k.ids <+: key.ids ∧ k ≠ key := by
  simp [above]

/-- **A chain needs no more opened than what lies above its end.** -/
theorem Place.chain_of_above {keys : List PathKey} {here there : List NodeId × Place}
    (chain : Relation.ReflTransGen (Place.Step g (· ∈ keys)) here there) :
    Relation.ReflTransGen (Place.Step g (· ∈ PathKey.above keys ⟨there.1⟩)) here there := by
  have more : ∀ {last : List NodeId × Place}, there.1 <+: last.1 →
      Relation.ReflTransGen (Place.Step g (· ∈ PathKey.above keys ⟨last.1⟩)) here there := by
    induction chain with
    | refl => exact fun _ => .refl
    | @tail middle next chain step ih =>
      intro last beginning
      obtain ⟨id, ids⟩ := step.ids_eq
      have shorter : middle.1 <+: last.1 :=
        (ids ▸ List.prefix_append middle.1 [id]).trans beginning
      refine .tail (ih shorter) (step.of_opened fun opened => ?_)
      refine decide_eq_true (PathKey.mem_above.mpr ⟨of_decide_eq_true opened, shorter, ?_⟩)
      intro same
      have length := beginning.length_le
      rw [ids, List.length_append, List.length_singleton, PathKey.mk.inj same] at length
      omega
  exact more (List.prefix_refl _)

end Chains

/-! ### The references that are drawn -/

/-- The reference that a mark is of, with its key. -/
def Mark.occurrence? : PathKey × Mark → Option (String × PathKey)
  | (_, .terminal _) => none
  | (key, .closed name) | (key, .opened name) => some (name, key)

/-- The references on a track, opened or not. -/
def Track.occurrences (track : Track) : List (String × PathKey) :=
  track.references.filterMap Mark.occurrence?

theorem Track.mem_occurrences_iff {track : Track} {name : String} {key : PathKey} :
    (name, key) ∈ track.occurrences ↔
      ∃ what, Mark.occurrence? (key, what) = some (name, key) ∧ (key, what) ∈ track.marks := by
  simp only [occurrences, references, List.mem_filterMap, List.mem_filter]
  constructor
  · rintro ⟨⟨key', what⟩, ⟨member, -⟩, is⟩
    cases what with
    | terminal text => cases is
    | closed label | opened label =>
      obtain ⟨rfl, rfl⟩ := Prod.mk.inj (Option.some.inj is)
      exact ⟨_, rfl, member⟩
  · rintro ⟨what, is, member⟩
    refine ⟨(key, what), ⟨member, ?_⟩, is⟩
    cases what with
    | terminal text => cases is
    | closed label | opened label => rfl

/-- The references shown for a layout are those shown for its references. -/
theorem Layout.perm_occurrences_track (shown : String → PathKey → Track) (l : Layout) :
    (l.track shown).occurrences.Perm
      (l.references.flatMap fun r => (shown r.1 r.2).occurrences) := by
  have all := (references_track shown l).filterMap Mark.occurrence?
  rwa [List.filterMap_flatMap] at all

namespace Grammar

variable {g : Grammar} {selected : PathKey → Bool}

/-- What is shown for a reference are the references that are drawn for it. -/
theorem perm_occurrences_shown (levels : Nat) (r : String × PathKey) :
    (g.shown selected levels r.1 r.2).occurrences.Perm (g.unfolded selected levels r) := by
  induction levels generalizing r with
  | zero => simp [shown, unfolded, Track.occurrences, Mark.occurrence?]
  | succ levels ih =>
    unfold shown unfolded
    split
    · cases found : g.find? r.1 with
      | none => simp [Track.occurrences, Mark.occurrence?]
      | some p =>
        have inside := (Layout.perm_occurrences_track (g.shown selected levels)
          (p.body.layout r.2.ids)).trans (List.Perm.flatMap_left _ fun inner _ => ih inner)
        rw [Parts.references_layout.1] at inside
        simpa [Track.occurrences, Mark.occurrence?] using inside
    · simp [Track.occurrences, Mark.occurrence?]

/-- What is shown for a production are the references that are drawn from it on. -/
theorem perm_occurrences (g : Grammar) (selected : PathKey → Bool) (p : Production) :
    ((p.body.layout [p.id]).track (g.shown selected maxDepth)).occurrences.Perm
      (g.occurrences selected p) := by
  have shown := (Layout.perm_occurrences_track (g.shown selected maxDepth)
    (p.body.layout [p.id])).trans (List.Perm.flatMap_left _ fun r _ => perm_occurrences_shown _ r)
  rwa [Parts.references_layout.1] at shown

/-- A reference is opened or not wherever a chain leads to it. -/
theorem exists_shows_reference_iff {key : PathKey} {name : String} {place : Place} :
    (∃ what, Mark.occurrence? (key, what) = some (name, key) ∧
      place.Shows g selected key what) ↔ place = .reference name := by
  constructor
  · rintro ⟨what, is, shown⟩
    cases what with
    | terminal text => cases is
    | closed label | opened label =>
      obtain ⟨rfl, -⟩ := Prod.mk.inj (Option.some.inj is)
      cases place with
      | reference name => rw [shown.1]
      | _ => cases shown
  · rintro rfl
    by_cases opened : ∃ p, g.Opens selected key name p
    · exact ⟨.opened name, rfl, rfl, opened⟩
    · exact ⟨.closed name, rfl, rfl, opened⟩

/-- **Chains lead to the references that are drawn**, and to no others. -/
theorem mem_occurrences_iff {p : Production} {name : String} {key : PathKey} :
    (name, key) ∈ g.occurrences selected p ↔ g.Chain selected p key.ids (.reference name) := by
  have follows : Follows g selected (g.shown selected maxDepth) 0 := fun _ _ _ =>
    mem_marks_shown_iff (Nat.le_add_right _ _)
  have leads := (Parts.mem_marks_iff follows).1 p.body [p.id] (Nat.zero_le _)
  rw [← (perm_occurrences g selected p).mem_iff, Track.mem_occurrences_iff]
  constructor
  · rintro ⟨what, is, member⟩
    obtain ⟨place, chain, shown⟩ := (leads (key, what)).mp member
    rwa [← exists_shows_reference_iff.mp ⟨what, is, shown⟩]
  · intro chain
    have shows : ∃ what, Mark.occurrence? (key, what) = some (name, key) ∧
        (Place.reference name).Shows g selected key what := exists_shows_reference_iff.mpr rfl
    obtain ⟨what, is, shown⟩ := shows
    exact ⟨what, is, (leads (key, what)).mpr ⟨_, chain, shown⟩⟩

/-! ### When a diagram fails -/

theorem failure?_eq_none_iff {r : String × PathKey} :
    g.failure? selected r = none ↔
      ¬ (r.2.depth < maxDepth ∧ selected r.2 = true ∧ r.1 ∉ g.names) := by
  unfold failure?
  split <;> simp_all

theorem failure?_eq_some_iff {r : String × PathKey} {e : DiagramError} :
    g.failure? selected r = some e ↔
      (r.2.depth < maxDepth ∧ selected r.2 = true ∧ r.1 ∉ g.names) ∧
        e = .productionNotFound ⟨r.1, closest? r.1 g.names⟩ := by
  unfold failure?
  split
  · rename_i fails
    rw [Option.some.injEq, eq_comm]
    exact (and_iff_right fails).symm
  · rename_i draws
    simp [draws]

/-- **A drawing fails exactly if a chain leads to a reference that is to be opened and is not
declared.** -/
theorem exists_error_draw_iff {start : Option String} {p : Production}
    (started : g.startProduction start = .ok p) :
    (∃ e, (g.draw start selected).result = .error e) ↔
      ∃ (key : PathKey) (name : String), key.depth < maxDepth ∧ selected key = true ∧
        name ∉ g.names ∧ g.Chain selected p key.ids (.reference name) := by
  simp only [← Traced.error?_eq_some, error?_draw started]
  constructor
  · rintro ⟨e, first⟩
    obtain ⟨before, ⟨name, key⟩, after, all, fails, -⟩ := List.findSome?_eq_some_iff.mp first
    obtain ⟨⟨short, opened, undeclared⟩, -⟩ := failure?_eq_some_iff.mp fails
    refine ⟨key, name, short, opened, undeclared, mem_occurrences_iff.mp ?_⟩
    rw [all]
    exact List.mem_append_right _ List.mem_cons_self
  · rintro ⟨key, name, short, opened, undeclared, chain⟩
    refine Option.ne_none_iff_exists'.mp fun none => ?_
    have draws := List.findSome?_eq_none_iff.mp none _ (mem_occurrences_iff.mpr chain)
    exact failure?_eq_none_iff.mp draws ⟨short, opened, undeclared⟩

/-- The reference under the key is to be opened, and no production has its name: with only the keys
above it opened, there is a diagram, and the reference is shown in it. -/
structure Unresolved (g : Grammar) (start : Option String) (expanded : List PathKey) (key : PathKey)
    (name : String) : Prop where
  opened : key ∈ expanded
  short : key.depth < maxDepth
  undeclared : name ∉ g.names
  shown : ∃ d, (g.diagram start (PathKey.above expanded key)).result = .ok d ∧
    .nonTerminal name key ∈ d.root.nodes

/-- A reference that is closed is shown exactly where a chain leads to it. -/
theorem mem_nodes_nonTerminal_iff {start : Option String} {p : Production}
    (started : g.startProduction start = .ok p) {d : Diagram}
    (drawn : (g.draw start selected).result = .ok d) {name : String} {key : PathKey} :
    .nonTerminal name key ∈ d.root.nodes ↔
      g.Chain selected p key.ids (.reference name) ∧ ¬ ∃ q, g.Opens selected key name q := by
  obtain ⟨p', started', marks⟩ := mem_marks_draw_iff drawn
  obtain rfl : p = p' := Except.ok.inj (started.symm.trans started')
  have marked : Track.nonTerminal name key ∈ d.root.nodes ↔ (key, .closed name) ∈ d.root.marks := by
    rw [Track.marks, List.mem_filterMap]
    constructor
    · exact fun member => ⟨_, member, rfl⟩
    · rintro ⟨node, member, is⟩
      cases node <;> cases is
      exact member
  rw [marked, marks]
  constructor
  · rintro ⟨place, chain, shown⟩
    cases place with
    | reference name' =>
      obtain ⟨rfl, closed⟩ := shown
      exact ⟨chain, closed⟩
    | _ => cases shown
  · rintro ⟨chain, closed⟩
    exact ⟨_, chain, rfl, closed⟩

/-- **What lies above a reference that is reached can be opened**: the chain to the reference goes on
there. -/
theorem exists_draw_above (numbered : ∀ q ∈ g.productions, q.body.Numbered) {start : Option String}
    {p : Production} (started : g.startProduction start = .ok p) {expanded : List PathKey}
    {key : PathKey} {name : String}
    (chain : g.Chain (· ∈ PathKey.above expanded key) p key.ids (.reference name)) :
    ∃ d, (g.draw start (· ∈ PathKey.above expanded key)).result = .ok d := by
  cases drawn : (g.draw start (· ∈ PathKey.above expanded key)).result with
  | ok d => exact ⟨d, rfl⟩
  | error e =>
    obtain ⟨key', name', -, above, undeclared, chain'⟩ :=
      (exists_error_draw_iff started).mp ⟨e, drawn⟩
    obtain ⟨-, beginning, different⟩ := PathKey.mem_above.mp (of_decide_eq_true above)
    have on := Place.chain_through numbered chain' chain
      (numbered p (mem_of_startProduction started)) beginning
    rcases Relation.ReflTransGen.cases_head on with same | ⟨next, step, -⟩
    · exact absurd (congrArg PathKey.mk (Prod.mk.inj same).1) different
    · cases step with
      | opened opens => exact absurd (mem_names_of_find? opens.2.2) undeclared

/-- **An unresolved reference is one that a chain leads to**, with all the given keys opened. -/
theorem unresolved_iff (numbered : ∀ q ∈ g.productions, q.body.Numbered) {start : Option String}
    {p : Production} (started : g.startProduction start = .ok p) {expanded : List PathKey}
    {key : PathKey} {name : String} :
    g.Unresolved start expanded key name ↔
      key.depth < maxDepth ∧ key ∈ expanded ∧ name ∉ g.names ∧
        g.Chain (· ∈ expanded) p key.ids (.reference name) := by
  constructor
  · rintro ⟨opened, short, undeclared, d, drawn, shown⟩
    rw [diagram_eq] at drawn
    obtain ⟨chain, -⟩ := (mem_nodes_nonTerminal_iff started drawn).mp shown
    refine ⟨short, opened, undeclared, Relation.ReflTransGen.mono (fun _ _ step => ?_) _ _ chain⟩
    refine step.mono fun k above => ?_
    exact decide_eq_true (PathKey.mem_above.mp (of_decide_eq_true above)).1
  · rintro ⟨short, opened, undeclared, chain⟩
    have few : g.Chain (· ∈ PathKey.above expanded key) p key.ids (.reference name) :=
      Place.chain_of_above chain
    obtain ⟨d, drawn⟩ := exists_draw_above numbered started few
    refine ⟨opened, short, undeclared, d, by rwa [diagram_eq], ?_⟩
    refine (mem_nodes_nonTerminal_iff started drawn).mpr ⟨few, ?_⟩
    rintro ⟨q, opens⟩
    exact undeclared (mem_names_of_find? opens.2.2)

/-- **A diagram fails exactly for a reference that is opened and not declared.** Take an accepted
text and a start that is a production. There is no diagram exactly if one of the keys, short enough
to be opened, is that of a reference without a production, shown in the diagram in which only the
keys above it are opened. The error then names the first of these references in the order of
drawing; all of them are drawn. So with more keys there is no diagram either. -/
theorem diagram_error_iff {text : String} {g : Grammar} (read : Grammar.ofString? text = .ok g)
    {start : Option String} {p : Production} (started : g.startProduction start = .ok p)
    (expanded : List PathKey) :
    ((∃ e, (g.diagram start expanded).result = .error e) ↔
        ∃ key name, g.Unresolved start expanded key name) ∧
      (∀ e, (g.diagram start expanded).result = .error e →
        ∃ before name key after,
          g.occurrences (· ∈ expanded) p = before ++ (name, key) :: after ∧
            g.Unresolved start expanded key name ∧
            (∀ r ∈ before, ¬ g.Unresolved start expanded r.2 r.1) ∧
            e = .productionNotFound ⟨name, closest? name g.names⟩) ∧
      (∀ key name, g.Unresolved start expanded key name →
        (name, key) ∈ g.occurrences (· ∈ expanded) p) ∧
      ∀ more, expanded ⊆ more → (∃ e, (g.diagram start expanded).result = .error e) →
        ∃ e, (g.diagram start more).result = .error e := by
  obtain ⟨tokens, last, scanned, tree⟩ := ofString?_eq_ok_iff.mp read
  have numbered : ∀ q ∈ g.productions, q.body.Numbered := fun q hq =>
    numbered_body tree.numbered hq
  simp only [diagram_eq, unresolved_iff numbered started]
  refine ⟨?_, fun e failed => ?_, ?_, fun more all failed => ?_⟩
  · rw [exists_error_draw_iff started]
    simp only [decide_eq_true_eq]
  · rw [← Traced.error?_eq_some, error?_draw started] at failed
    obtain ⟨before, ⟨name, key⟩, after, drawn, fails, others⟩ :=
      List.findSome?_eq_some_iff.mp failed
    obtain ⟨⟨short, opened, undeclared⟩, rfl⟩ := failure?_eq_some_iff.mp fails
    have member : (name, key) ∈ g.occurrences (· ∈ expanded) p := by
      rw [drawn]
      exact List.mem_append_right _ List.mem_cons_self
    refine ⟨before, name, key, after, drawn, ?_, fun r hr unresolved => ?_, rfl⟩
    · exact ⟨short, of_decide_eq_true opened, undeclared, mem_occurrences_iff.mp member⟩
    · obtain ⟨short', opened', undeclared', -⟩ := unresolved
      exact failure?_eq_none_iff.mp (others r hr) ⟨short', decide_eq_true opened', undeclared'⟩
  · rintro key name ⟨-, -, -, chain⟩
    exact mem_occurrences_iff.mpr chain
  · rw [exists_error_draw_iff started] at failed ⊢
    obtain ⟨key, name, short, opened, undeclared, chain⟩ := failed
    have fewer : ∀ k : PathKey, decide (k ∈ expanded) = true → decide (k ∈ more) = true :=
      fun k hk => decide_eq_true (all (of_decide_eq_true hk))
    exact ⟨key, name, short, fewer key opened, undeclared,
      Relation.ReflTransGen.mono (fun _ _ step => step.mono fewer) _ _ chain⟩

set_option maxRecDepth 4000 in
/-- Two references that are not declared: the one in the loop is drawn before the one in front. -/
theorem diagram_error_iff_loop :
    let p : Production := ⟨2, ⟨3, "S"⟩, ⟨4, [⟨5, [.identifier 6 ⟨7, "P"⟩, .identifier 8 ⟨9, "Q"⟩,
      .bracketed 10 .repetition
        ⟨11, [⟨12, [.identifier 13 ⟨14, "x"⟩, .identifier 15 ⟨16, "Q"⟩]⟩]⟩]⟩]⟩⟩
    let g : Grammar := ⟨1, [p]⟩
    let keys : List PathKey := [⟨[2, 4, 5, 6, 7]⟩, ⟨[2, 4, 5, 10, 11, 12, 15, 16]⟩]
    Grammar.ofString? "S = P Q \x7bx Q\x7d ." = .ok g ∧ g.startProduction none = .ok p ∧
      (g.diagram none keys).result =
        .error (.productionNotFound ⟨"Q", closest? "Q" g.names⟩) ∧
      (∃ key name, g.Unresolved none keys key name) ∧
      (∃ before name key after,
        g.occurrences (· ∈ keys) p = before ++ (name, key) :: after ∧
          g.Unresolved none keys key name ∧
          (∀ r ∈ before, ¬ g.Unresolved none keys r.2 r.1) ∧
          DiagramError.productionNotFound ⟨"Q", closest? "Q" g.names⟩ =
            .productionNotFound ⟨name, closest? name g.names⟩) ∧
      ∀ more, keys ⊆ more → ∃ e, (g.diagram none more).result = .error e := by
  intro p g keys
  have read : Grammar.ofString? "S = P Q \x7bx Q\x7d ." = .ok g := by cbv
  have started : g.startProduction none = .ok p := rfl
  have failed : (g.diagram none keys).result =
      .error (.productionNotFound ⟨"Q", closest? "Q" g.names⟩) := by
    rw [diagram_eq]
    rfl
  obtain ⟨exists_iff, first, -, mono⟩ := diagram_error_iff read started keys
  exact ⟨read, started, failed, exists_iff.mp ⟨_, failed⟩, first _ failed,
    fun more all => mono more all ⟨_, failed⟩⟩

end Grammar

end Railroad
