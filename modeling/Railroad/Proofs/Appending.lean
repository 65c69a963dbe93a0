import Railroad.Proofs.Structure

/-!
One text behind another.

* `Reading.induction`: induction on texts, from one token to the next.
* `Reading.of_append`: two texts are read one after the other, unless a name runs on from the first
  into the second.
* `Grammar.TreeOf.append`: so two grammars make one, with the ids of the second behind those of the
  first.
* `Grammar.Extends`, `Grammar.Extends.draw_eq`: what is declared stays so, and what can be drawn
  without the second grammar is drawn alike with it.
* `Grammar.ofString?_append`: appending productions keeps the diagrams and the keys there are.
-/

namespace Railroad

open Token (Kind)

/-! ### Readings of two texts -/

namespace Reading

/-- A character that starts no token. -/
theorem of_unexpected {c : Char} (blank : Text.isWhiteSpace c = false) (quote : isQuote c = false)
    (letter : Text.isAlphabetic c = false) (other : punctuation? c = none) (cs : List Char) :
    of false (c :: cs) = ⟨[], .unexpected c⟩ := by
  have next : (Scanner.before false (c :: cs)).next =
      (.error (.unexpectedCharacter c {}), Scanner.before false (c :: cs)) := by
    simp [Scanner.before, Scanner.next, Scanner.skipSpace, Scanner.advance, Scanner.nextOutside,
      blank, quote, letter, other, Position.afterAll]
  rw [of, Scanner.reading, Scanner.tokens_of_next_error next]
  rfl

theorem of_unterminated : of true [] = ⟨[], .unterminated⟩ := by
  have next : (Scanner.before true []).next =
      (.error (.unterminatedLiteral {}), Scanner.before true []) := rfl
  rw [of, Scanner.reading, Scanner.tokens_of_next_error next]
  rfl

/-- A quotation mark opens a literal or closes one. -/
theorem of_quote {c : Char} (h : isQuote c = true) (inside : Bool) (cs : List Char) :
    of inside (c :: cs) = (of (!inside) cs).prepend [.quote] := by
  cases inside with
  | false => exact of_quote_outside h cs
  | true => exact of_quote_inside h cs

/-- A text that starts with a certain class of characters starts with a longest run of them. -/
theorem exists_run (p : Char → Bool) {c : Char} (cs : List Char) (first : p c = true) :
    ∃ run rest, c :: cs = run ++ rest ∧ run ≠ [] ∧ (∀ d ∈ run, p d = true) ∧
      (∀ d ∈ rest.head?, p d = false) ∧ rest.length < (c :: cs).length := by
  refine ⟨(c :: cs).takeWhile p, (c :: cs).dropWhile p, List.takeWhile_append_dropWhile.symm, ?_,
    fun d hd => List.all_eq_true.mp List.all_takeWhile d hd, fun d hd => ?_,
    Scanner.length_dropWhile_lt first⟩
  · rw [List.takeWhile_cons_of_pos first]
    exact List.cons_ne_nil _ _
  · have stops := List.head?_dropWhile_not p (c :: cs)
    rwa [Option.mem_def.mp hd] at stops

/-- **Induction on texts**, from one token to the next, inside a literal and outside. -/
theorem induction {P : Bool → List Char → Prop} (complete : P false [])
    (space : ∀ c cs, Text.isWhiteSpace c = true → P false cs → P false (c :: cs))
    (mark : ∀ inside c cs, isQuote c = true → P (!inside) cs → P inside (c :: cs))
    (name : ∀ run rest, run ≠ [] → (∀ c ∈ run, Text.isAlphabetic c = true) →
      (∀ c ∈ rest.head?, Text.isAlphabetic c = false) → P false rest → P false (run ++ rest))
    (punctuation : ∀ c kind cs, punctuation? c = some kind → P false cs → P false (c :: cs))
    (unexpected : ∀ c cs, Text.isWhiteSpace c = false → isQuote c = false →
      Text.isAlphabetic c = false → punctuation? c = none → P false (c :: cs))
    (unterminated : P true [])
    (literal : ∀ run rest, run ≠ [] → (∀ c ∈ run, isQuote c = false) →
      (∀ c ∈ rest.head?, isQuote c = true) → P true rest → P true (run ++ rest))
    (inside : Bool) (cs : List Char) : P inside cs := by
  induction length : cs.length using Nat.strongRecOn generalizing inside cs with
  | ind n ih =>
    subst length
    have all : ∀ inside' rest, rest.length < cs.length → P inside' rest :=
      fun inside' rest shorter => ih _ shorter inside' rest rfl
    cases cs with
    | nil =>
      cases inside with
      | false => exact complete
      | true => exact unterminated
    | cons c cs =>
      have shorter : cs.length < (c :: cs).length := Nat.lt_succ_self _
      by_cases quote : isQuote c = true
      · exact mark inside c cs quote (all (!inside) cs shorter)
      cases inside with
      | true =>
        obtain ⟨run, rest, same, inhabited, plain, ends, shorter⟩ :=
          exists_run (!isQuote ·) cs (by simpa using quote)
        rw [same]
        exact literal run rest inhabited (by simpa using plain) (by simpa using ends)
          (all true rest shorter)
      | false =>
        by_cases blank : Text.isWhiteSpace c = true
        · exact space c cs blank (all false cs shorter)
        by_cases letter : Text.isAlphabetic c = true
        · obtain ⟨run, rest, same, inhabited, letters, ends, shorter⟩ :=
            exists_run Text.isAlphabetic cs letter
          rw [same]
          exact name run rest inhabited letters ends (all false rest shorter)
        simp only [Bool.not_eq_true] at quote blank letter
        cases found : punctuation? c with
        | some kind => exact punctuation c kind cs found (all false cs shorter)
        | none => exact unexpected c cs blank quote letter found

/-- One reading behind another. Nothing is read behind an error. -/
def append (r s : Reading) : Reading :=
  if r.ending = .complete then s.prepend r.kinds else r

theorem append_prepend (kinds : List Kind) (r s : Reading) :
    (r.prepend kinds).append s = (r.append s).prepend kinds := by
  unfold append
  by_cases complete : r.ending = .complete
  · rw [if_pos complete, if_pos (by simpa [prepend] using complete), prepend_prepend]
    rfl
  · rw [if_neg complete, if_neg (by simpa [prepend] using complete)]

theorem getLast?_prepend {kinds : List Kind} {r : Reading} {kind : Kind}
    (h : r.kinds.getLast? = some kind) : (r.prepend kinds).kinds.getLast? = some kind := by
  rw [prepend, List.getLast?_append, h]
  rfl

end Reading

/-- The last character is a letter. -/
def EndsInLetter (u : List Char) : Prop :=
  ∃ c, u.getLast? = some c ∧ Text.isAlphabetic c = true

theorem endsInLetter_append {rest : List Char} (inhabited : rest ≠ []) (run : List Char) :
    EndsInLetter (run ++ rest) ↔ EndsInLetter rest := by
  rw [EndsInLetter, EndsInLetter, List.getLast?_append_of_ne_nil run inhabited]

theorem endsInLetter_cons {c : Char} (plain : Text.isAlphabetic c = false) (cs : List Char) :
    EndsInLetter (c :: cs) ↔ EndsInLetter cs := by
  cases cs with
  | cons d ds => exact endsInLetter_append (List.cons_ne_nil _ _) [c]
  | nil => simp [EndsInLetter, plain]

/-- No name runs on from the first text into the second. -/
def Parted (u v : List Char) : Prop :=
  EndsInLetter u → StartsPlain v

theorem Parted.of_append {run rest v : List Char} (h : Parted (run ++ rest) v) : Parted rest v := by
  intro letter
  apply h
  rwa [endsInLetter_append]
  rintro rfl
  obtain ⟨c, last, -⟩ := letter
  cases last

theorem Parted.of_cons {c : Char} {cs v : List Char} (h : Parted (c :: cs) v) : Parted cs v :=
  Parted.of_append (show Parted ([c] ++ cs) v from h)

/-- **Two texts are read one after the other**, unless the first ends in the middle of a literal or
of a name. -/
theorem Reading.of_append {v : List Char} (inside : Bool) (u : List Char) (parted : Parted u v)
    (terminated : (of inside u).ending ≠ .unterminated) :
    of inside (u ++ v) = (of inside u).append (of false v) := by
  induction inside, u using Reading.induction with
  | complete =>
    rw [of_nil]
    rfl
  | space c cs blank ih =>
    rw [of_space blank] at terminated ⊢
    rw [List.cons_append, of_space blank, ih parted.of_cons terminated]
  | mark inside c cs quote ih =>
    rw [of_quote quote] at terminated ⊢
    rw [List.cons_append, of_quote quote, ih parted.of_cons terminated, append_prepend]
  | name run rest inhabited letters ends ih =>
    have plain : StartsPlain (rest ++ v) := by
      cases rest with
      | cons d ds => exact ends
      | nil =>
        -- The name is the end of the text, so no letter may follow.
        rw [List.append_nil] at parted
        exact parted ⟨_, List.getLast?_eq_getLast_of_ne_nil inhabited,
          letters _ (List.getLast_mem inhabited)⟩
    rw [of_name inhabited letters ends] at terminated ⊢
    rw [List.append_assoc, of_name inhabited letters plain, ih parted.of_append terminated,
      append_prepend]
  | punctuation c kind cs found ih =>
    rw [of_punctuation found] at terminated ⊢
    rw [List.cons_append, of_punctuation found, ih parted.of_cons terminated, append_prepend]
  | unexpected c cs blank quote letter other =>
    rw [List.cons_append, of_unexpected blank quote letter other,
      of_unexpected blank quote letter other]
    rfl
  | unterminated => exact absurd (congrArg Reading.ending of_unterminated) terminated
  | literal run rest inhabited plain ends ih =>
    rw [of_literal inhabited plain ends] at terminated ⊢
    cases rest with
    | nil => exact absurd (congrArg Reading.ending of_unterminated) terminated
    | cons d ds =>
      have ends' : ∀ c ∈ (d :: ds ++ v).head?, isQuote c = true := ends
      rw [List.append_assoc, of_literal inhabited plain ends', ih parted.of_append terminated,
        append_prepend]

/-- A text that ends in a letter is read with a name at its end. -/
theorem Reading.getLast?_kinds_of_endsInLetter (inside : Bool) (u : List Char)
    (letter : EndsInLetter u) (complete : (of inside u).ending = .complete) :
    ∃ name, (of inside u).kinds.getLast? = some (.identifier name) := by
  induction inside, u using Reading.induction with
  | complete | unterminated =>
    obtain ⟨c, last, -⟩ := letter
    cases last
  | space c cs blank ih =>
    rw [of_space blank] at complete ⊢
    rw [endsInLetter_cons (isAlphabetic_of_isWhiteSpace blank)] at letter
    exact ih letter complete
  | mark inside c cs quote ih =>
    rw [of_quote quote] at complete ⊢
    rw [endsInLetter_cons (plain_of_isQuote quote).1] at letter
    obtain ⟨name, found⟩ := ih letter complete
    exact ⟨name, getLast?_prepend found⟩
  | name run rest inhabited letters ends ih =>
    rw [of_name inhabited letters ends] at complete ⊢
    cases rest with
    | nil =>
      rw [of_nil]
      exact ⟨_, rfl⟩
    | cons d ds =>
      rw [endsInLetter_append (List.cons_ne_nil _ _)] at letter
      obtain ⟨name, found⟩ := ih letter complete
      exact ⟨name, getLast?_prepend found⟩
  | punctuation c kind cs sign ih =>
    rw [of_punctuation sign] at complete ⊢
    rw [endsInLetter_cons (plain_of_punctuation sign).1] at letter
    obtain ⟨name, found⟩ := ih letter complete
    exact ⟨name, getLast?_prepend found⟩
  | unexpected c cs blank quote plain other =>
    rw [of_unexpected blank quote plain other] at complete
    cases complete
  | literal run rest inhabited plain ends ih =>
    rw [of_literal inhabited plain ends] at complete ⊢
    cases rest with
    | nil =>
      rw [of_unterminated] at complete
      cases complete
    | cons d ds =>
      rw [endsInLetter_append (List.cons_ne_nil _ _)] at letter
      obtain ⟨name, found⟩ := ih letter complete
      exact ⟨name, getLast?_prepend found⟩

/-! ### Two grammars in one -/

theorem Production.numberAll_append (n : Nat) (front back : List Production) :
    numberAll n (front ++ back) = numberAll n front ++ numberAll (n + sizeAll front) back := by
  induction front generalizing n with
  | nil => rfl
  | cons p rest ih => simp only [List.cons_append, numberAll, sizeAll, ih, Nat.add_assoc]

/-- The last token of a grammar is a period. -/
theorem Grammar.eq_period_of_mem_getLast? {g : Grammar} {kind : Kind}
    (h : g.kinds.getLast? = some kind) : kind = .period := by
  obtain ⟨id, productions⟩ := g
  rcases productions.eq_nil_or_concat with rfl | ⟨front, last, rfl⟩
  · cases h
  · have ending : last.kinds = (.identifier last.name.text :: .equals :: last.body.kinds) ++
        [Kind.period] := by simp [Production.kinds]
    rw [kinds, List.concat_eq_append, List.flatMap_append, List.flatMap_singleton, ending,
      ← List.append_assoc, List.getLast?_concat] at h
    exact (Option.some.inj h).symm

/-- The productions of the first grammar and behind them those of the second. The ids of the second
are raised so that they follow those of the first: both begin behind the same one. -/
def Grammar.append (g h : Grammar) : Grammar :=
  ⟨g.id, g.productions ++ h.productions.map (Production.mapIds (· + (g.walk.length - 1)))⟩

/-- **Two trees in one.** With the ids raised, the productions of the second tree are numbered behind
those of the first. -/
theorem Grammar.TreeOf.append {g h : Grammar} {gKinds hKinds : List Kind} {n : Nat}
    (hg : g.TreeOf gKinds n) (hh : h.TreeOf hKinds n) :
    (g.append h).TreeOf (gKinds ++ hKinds) n := by
  have gNumbered : Production.numberAll (n + 1) g.productions = g.productions :=
    congrArg productions hg.numbered
  have hNumbered : Production.numberAll (n + 1) h.productions = h.productions :=
    congrArg productions hh.numbered
  have length : g.walk.length = 1 + Production.sizeAll g.productions := by
    rw [← hg.numbered, length_walk_number, hg.numbered, size]
  have moves : Moves (· + (g.walk.length - 1)) (n + 1)
      (n + 1 + Production.sizeAll g.productions) := by
    intro k
    show n + 1 + k + (g.walk.length - 1) = n + 1 + Production.sizeAll g.productions + k
    omega
  have raised : h.productions.map (Production.mapIds (· + (g.walk.length - 1))) =
      Production.numberAll (n + 1 + Production.sizeAll g.productions) h.productions := by
    rw [← Production.map_mapIds_numberAll moves, hNumbered]
  refine ⟨fun p hp => ?_, ?_, ?_⟩
  · rcases List.mem_append.mp hp with hp | hp
    · exact hg.fits p hp
    · rw [raised] at hp
      obtain ⟨q, hq, k, rfl⟩ := Production.exists_of_mem_numberAll hp
      exact Parts.fits_number.1 q.body maxNesting (k + 2) (hh.fits q hq)
  · rw [Grammar.append, Grammar.kinds, List.flatMap_append, raised,
      Production.flatMap_kinds_numberAll, ← hg.kinds, ← hh.kinds, Grammar.kinds, Grammar.kinds]
  · have first : n + 1 = g.id := congrArg Grammar.id hg.numbered
    rw [Grammar.append, raised, number, Production.numberAll_append, gNumbered,
      Production.numberAll_numberAll, first]

/-- Reading a text depends on nothing but the kinds of its tokens. -/
theorem Grammar.ofString?_eq_ok_iff_reading {text : String} {g : Grammar} :
    ofString? text = .ok g ↔
      ∃ kinds, Reading.of false text.toList = ⟨kinds, .complete⟩ ∧ g.TreeOf kinds 0 := by
  have same : (Scanner.ofString text).reading = Reading.of false text.toList :=
    Scanner.reading_eq (.ofString text)
  rw [ofString?_eq_ok_iff, ← same]
  simp only [Scanner.reading_eq_complete_iff]
  constructor
  · rintro ⟨tokens, last, scanned, tree⟩
    exact ⟨_, ⟨tokens, last, scanned, rfl⟩, tree⟩
  · rintro ⟨_, ⟨tokens, last, scanned, rfl⟩, tree⟩
    exact ⟨tokens, last, scanned, tree⟩

/-- **One text behind another** is read as the two grammars in one. -/
theorem Grammar.ofString?_append_eq_ok {a b : String} {g h : Grammar}
    (readA : ofString? a = .ok g) (readB : ofString? b = .ok h) :
    ofString? (a ++ b) = .ok (g.append h) := by
  obtain ⟨gKinds, gReading, gTree⟩ := ofString?_eq_ok_iff_reading.mp readA
  obtain ⟨hKinds, hReading, hTree⟩ := ofString?_eq_ok_iff_reading.mp readB
  have complete : (Reading.of false a.toList).ending = .complete := by rw [gReading]
  have parted : Parted a.toList b.toList := by
    -- A grammar does not end in a name, so its text does not end in a letter.
    intro letter
    obtain ⟨name, last⟩ := Reading.getLast?_kinds_of_endsInLetter false _ letter complete
    rw [gReading, ← gTree.kinds] at last
    cases eq_period_of_mem_getLast? last
  have whole := Reading.of_append false _ parted (by simp [complete])
  rw [← String.toList_append, Reading.append, if_pos complete, gReading, hReading] at whole
  exact ofString?_eq_ok_iff_reading.mpr ⟨_, whole, gTree.append hTree⟩

/-! ### Drawing with more productions -/

/-- Whatever `g` declares, `more` declares alike, and it starts from the same production. -/
structure Grammar.Extends (more g : Grammar) : Prop where
  find? : ∀ name p, g.find? name = some p → more.find? name = some p
  first : ∀ p, g.startProduction none = .ok p → more.startProduction none = .ok p

/-- Productions behind those that there are hide none of them. -/
theorem Grammar.append_extends (g h : Grammar) : (g.append h).Extends g where
  find? name p found := by
    rw [find?] at found
    rw [find?, append, List.find?_append, found]
    rfl
  first p found := by
    obtain ⟨id, _ | ⟨first, rest⟩⟩ := g
    · cases found
    · exact found

theorem Hereditary.succeeds : Hereditary Traced.Succeeds where
  first h := by
    obtain ⟨a, result, -⟩ := Traced.succeeds_bind_iff.mp h
    exact ⟨a, result⟩
  next h result := by
    obtain ⟨b, result', good⟩ := Traced.succeeds_bind_iff.mp h
    cases result.symm.trans result'
    exact good

namespace Grammar

variable {g more : Grammar} {selected : PathKey → Bool}

/-- How a reference to a declared name is drawn if it is opened. -/
theorem drawOpened_of_find? {refer : String → PathKey → Drawing Track} {name : String}
    {path : PathKey} {p : Production} (found : g.find? name = some p) :
    g.drawOpened refer name path = Traced.emit (.expanding name path) >>= fun _ =>
      Track.group name path <$> (p.body.layout path.ids).draw refer := by
  have looked : (g.lookup name).mapError DiagramError.productionNotFound = .ok p :=
    mapError_lookup_eq_ok.mpr found
  rw [drawOpened, looked]
  rfl

theorem Extends.drawReference_eq (larger : more.Extends g) {levels : Nat} {name : String}
    {path : PathKey} (h : (g.drawReference selected levels name path).Succeeds) :
    more.drawReference selected levels name path = g.drawReference selected levels name path := by
  induction levels generalizing name path with
  | zero => rfl
  | succ levels ih =>
    by_cases opened : path.depth < maxDepth ∧ selected path = true
    · rw [drawReference_of_opened opened] at h
      rw [drawReference_of_opened opened, drawReference_of_opened opened]
      obtain ⟨t, drawn⟩ := h
      obtain ⟨p, inner, found, body, -⟩ := result_drawOpened_eq_ok.mp drawn
      rw [drawOpened_of_find? found, drawOpened_of_find? (larger.find? name p found),
        Layout.draw_congr Hereditary.succeeds _ (fun r _ => ih) ⟨inner, body⟩]
    · rw [drawReference_of_closed opened, drawReference_of_closed opened]

/-- **What can be drawn is drawn alike with more productions.** -/
theorem Extends.draw_eq (larger : more.Extends g) {start : Option String}
    (h : (g.draw start selected).Succeeds) : more.draw start selected = g.draw start selected := by
  obtain ⟨d, drawn⟩ := h
  obtain ⟨p, track, started, body, -⟩ := result_draw_eq_ok.mp drawn
  have started' : more.startProduction start = .ok p := by
    cases start with
    | none => exact larger.first p started
    | some name =>
      have found := mapError_lookup_eq_ok.mp started
      exact mapError_lookup_eq_ok.mpr (larger.find? name p found)
  have same := Layout.draw_congr Hereditary.succeeds (p.body.layout [p.id])
    (fun r _ => larger.drawReference_eq) ⟨track, body⟩
  rw [draw, draw, started, started']
  refine Traced.bind_congr fun q hq => ?_
  cases hq
  rw [drawProduction, drawProduction, same]

/-- **Appending productions keeps diagrams and keys.** Of two texts that are accepted, one behind the
other is accepted: its productions are those of the first, with their ids, and then those of the
second, with each id raised by one less than the number of nodes of the first. Names that the first
declares mean what they meant. Every diagram and every list of keys that the first text has stays the
same. -/
theorem ofString?_append {a b : String} {first second : Grammar}
    (readFirst : ofString? a = .ok first) (readSecond : ofString? b = .ok second) :
    ∃ g, ofString? (a ++ b) = .ok g ∧
      g.productions = first.productions ++
        second.productions.map (Production.mapIds (· + (first.walk.length - 1))) ∧
      (∀ name p, first.find? name = some p → g.find? name = some p) ∧
      (∀ start expanded d, (first.diagram start expanded).result = .ok d →
        (g.diagram start expanded).result = .ok d) ∧
      ∀ start paths, (first.expandablePaths start).result = .ok paths →
        (g.expandablePaths start).result = .ok paths := by
  have larger := append_extends first second
  refine ⟨first.append second, ofString?_append_eq_ok readFirst readSecond, rfl, larger.find?,
    ?_, ?_⟩
  · intro start expanded d drawn
    rw [diagram_eq] at drawn ⊢
    rw [larger.draw_eq ⟨d, drawn⟩, drawn]
  · intro start paths listed
    obtain ⟨drawn, -⟩ := result_expandablePaths_eq_ok.mp listed
    rw [expandablePaths] at listed ⊢
    rw [larger.draw_eq drawn, listed]

set_option maxRecDepth 4000 in
/-- The second text declares a name again. -/
theorem ofString?_append_repeated :
    let first : Grammar := ⟨1, [⟨2, ⟨3, "A"⟩, ⟨4, [⟨5, [.identifier 6 ⟨7, "B"⟩]⟩]⟩⟩,
      ⟨8, ⟨9, "B"⟩, ⟨10, [⟨11, [.identifier 12 ⟨13, "x"⟩]⟩]⟩⟩]⟩
    let second : Grammar := ⟨1, [⟨2, ⟨3, "B"⟩, ⟨4, [⟨5, [.identifier 6 ⟨7, "y"⟩]⟩]⟩⟩]⟩
    ofString? "A = B . B = x ." = .ok first ∧ ofString? "B = y ." = .ok second ∧
      ∃ g, ofString? ("A = B . B = x ." ++ "B = y .") = .ok g ∧
        g.productions = first.productions ++
          second.productions.map (Production.mapIds (· + (first.walk.length - 1))) ∧
        (∀ name p, first.find? name = some p → g.find? name = some p) ∧
        (∀ start expanded d, (first.diagram start expanded).result = .ok d →
          (g.diagram start expanded).result = .ok d) ∧
        ∀ start paths, (first.expandablePaths start).result = .ok paths →
          (g.expandablePaths start).result = .ok paths := by
  intro first second
  have readFirst : ofString? "A = B . B = x ." = .ok first := by cbv
  have readSecond : ofString? "B = y ." = .ok second := by cbv
  exact ⟨readFirst, readSecond, ofString?_append readFirst readSecond⟩

end Grammar

end Railroad
