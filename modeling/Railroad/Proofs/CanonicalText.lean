import Railroad.Proofs.Parser.Correctness
import Railroad.Proofs.Reading

/-!
Canonical text reads as the tree that it is the text of.

* `ReadsAs`: a text reads as these kinds, whatever comes behind it, as long as no letter does.
  `Parts.readsAs`: the canonical text of a part reads as the kinds of the part, if each of these
  kinds can be read at all.
* `Grammar.parse_text_of_parse`: reading the canonical text of what was read gives the same tree,
  ids included.
* `Factor.number_eq_of_sameSymbol`: factors with one canonical text differ in their ids only.
-/

namespace Railroad

open Token (Kind)

/-! ### Texts that read as given kinds -/

/-- No letter comes first. -/
def StartsPlain (cs : List Char) : Prop :=
  ∀ c ∈ cs.head?, Text.isAlphabetic c = false

/-- The text reads as these kinds wherever no letter follows it. -/
def ReadsAs (text : String) (kinds : List Kind) : Prop :=
  ∀ rest, StartsPlain rest →
    Reading.of false (text.toList ++ rest) = (Reading.of false rest).prepend kinds

/-- The text reads as these kinds wherever it stands, and it ends a name in front of it. -/
structure Sign (text : String) (kinds : List Kind) : Prop where
  first : ∃ c cs, text.toList = c :: cs ∧ Text.isAlphabetic c = false
  reads : ∀ rest, Reading.of false (text.toList ++ rest) = (Reading.of false rest).prepend kinds

theorem Sign.readsAs {text : String} {kinds : List Kind} (h : Sign text kinds) :
    ReadsAs text kinds :=
  fun rest _ => h.reads rest

theorem Sign.startsPlain {sign : String} {kinds : List Kind} (h : Sign sign kinds)
    (text : String) : StartsPlain (sign ++ text).toList := by
  obtain ⟨c, cs, chars, plain⟩ := h.first
  simpa [StartsPlain, chars] using plain

/-- Behind a sign a text is read by itself. -/
theorem Sign.append {sign text : String} {signKinds kinds : List Kind} (hs : Sign sign signKinds)
    (ht : ReadsAs text kinds) : ReadsAs (sign ++ text) (signKinds ++ kinds) := by
  intro rest plain
  rw [String.toList_append, List.append_assoc, hs.reads, ht rest plain, Reading.prepend_prepend]

theorem ReadsAs.append {a b : String} {ka kb : List Kind} (ha : ReadsAs a ka) (hb : ReadsAs b kb)
    (plain : StartsPlain b.toList) : ReadsAs (a ++ b) (ka ++ kb) := by
  intro rest plainRest
  have plain : StartsPlain (b.toList ++ rest) := by
    unfold StartsPlain at *
    cases chars : b.toList with
    | nil => simpa using plainRest
    | cons c cs => simpa [chars] using plain
  rw [String.toList_append, List.append_assoc, ha _ plain, hb rest plainRest,
    Reading.prepend_prepend]

/-- In front of a sign a text is read by itself. -/
theorem ReadsAs.append_sign {text sign : String} {kinds signKinds : List Kind}
    (ht : ReadsAs text kinds) (hs : Sign sign signKinds) :
    ReadsAs (text ++ sign) (kinds ++ signKinds) :=
  ht.append hs.readsAs (by simpa using hs.startsPlain "")

/-- Texts with signs between them. -/
theorem ReadsAs.intercalate {α : Type} {text : α → String} {kinds : α → List Kind}
    {items : List α} {sep : String} {sepKinds : List Kind} (hsep : Sign sep sepKinds)
    (h : ∀ item ∈ items, ReadsAs (text item) (kinds item)) :
    ReadsAs (sep.intercalate (items.map text)) (sepKinds.intercalate (items.map kinds)) := by
  induction items with
  | nil => exact fun _ _ => rfl
  | cons first rest ih =>
    obtain ⟨hfirst, hrest⟩ := List.forall_mem_cons.mp h
    cases rest with
    | nil => simpa using hfirst
    | cons second rest =>
      have others := ih hrest
      simp only [List.map_cons] at others ⊢
      rw [String.intercalate_cons_of_ne_nil (by simp), List.intercalate_cons_of_ne_nil (by simp),
        String.append_assoc, List.append_assoc]
      exact hfirst.append (hsep.append others) (hsep.startsPlain _)

theorem Sign.punctuation {c : Char} {kind : Kind} (h : punctuation? c = some kind) :
    Sign (String.singleton c) [kind] where
  first := ⟨c, [], by simp, (plain_of_punctuation h).1⟩
  reads rest := by simpa using Reading.of_punctuation h rest

theorem Sign.blank {c : Char} (h : Text.isWhiteSpace c = true) : Sign (String.singleton c) [] where
  first := ⟨c, [], by simp, isAlphabetic_of_isWhiteSpace h⟩
  reads rest := by simpa using Reading.of_space h rest

theorem Sign.append_sign {a b : String} {ka kb : List Kind} (ha : Sign a ka) (hb : Sign b kb) :
    Sign (a ++ b) (ka ++ kb) where
  first := by
    obtain ⟨c, cs, chars, plain⟩ := ha.first
    exact ⟨c, cs ++ b.toList, by simp [chars], plain⟩
  reads rest := by
    rw [String.toList_append, List.append_assoc, ha.reads, hb.reads, Reading.prepend_prepend]

theorem Sign.space : Sign " " [] :=
  .blank (c := ' ') (by decide)

/-- A sign with a space on either side. -/
theorem Sign.spaced {sign : String} {kinds : List Kind} (h : Sign sign kinds) :
    Sign (" " ++ sign ++ " ") kinds := by
  simpa using (Sign.space.append_sign h).append_sign .space

theorem Sign.opener (bracket : Bracket) : Sign bracket.opener [.opening bracket] := by
  cases bracket with
  | group => exact punctuation (c := '(') rfl
  | repetition => exact punctuation (c := '\x7b') rfl
  | option => exact punctuation (c := '[') rfl

theorem Sign.closer (bracket : Bracket) : Sign bracket.closer [.closing bracket] := by
  cases bracket with
  | group => exact punctuation (c := ')') rfl
  | repetition => exact punctuation (c := '\x7d') rfl
  | option => exact punctuation (c := ']') rfl

/-- A literal is closed by its second quotation mark, whatever it holds. -/
theorem Sign.literal {l : Literal} (h : (Kind.literal l.text).Readable) :
    Sign l.quotedText [.quote, .literal l.text, .quote] where
  first := ⟨'"', l.text.toList ++ ['"'], by simp [Literal.quotedText], by decide +kernel⟩
  reads rest := by
    obtain ⟨inhabited, plain⟩ := h
    have shown : l.text.toList.map literalChar = l.text.toList := by
      refine (List.map_congr_left fun c hc => ?_).trans (List.map_id _)
      exact if_neg (plain c hc).2
    have inside : Reading.of true (l.text.toList ++ '"' :: rest) =
        (Reading.of true ('"' :: rest)).prepend [.literal l.text] := by
      have run := Reading.of_literal inhabited (fun c hc => (plain c hc).1)
        (show ∀ c ∈ ('"' :: rest).head?, isQuote c = true by simp [isQuote])
      rwa [shown, String.ofList_toList] at run
    have chars : l.quotedText.toList ++ rest = '"' :: (l.text.toList ++ '"' :: rest) := by
      simp [Literal.quotedText]
    rw [chars, Reading.of_quote_outside (by decide), inside, Reading.of_quote_inside (by decide)]
    rfl

theorem ReadsAs.name {text : String} (h : (Kind.identifier text).Readable) :
    ReadsAs text [.identifier text] := by
  intro rest plain
  rw [Reading.of_name h.1 h.2 plain, String.ofList_toList]

/-! ### The texts of trees -/

/-- **The canonical text of a part reads as the part.** -/
theorem Parts.readsAs :
    (∀ e : Expression, (∀ k ∈ e.kinds, k.Readable) → ReadsAs e.text e.kinds) ∧
    (∀ t : Term, (∀ k ∈ t.kinds, k.Readable) → ReadsAs t.text t.kinds) ∧
    ∀ f : Factor, (∀ k ∈ f.kinds, k.Readable) → ReadsAs f.text f.kinds :=
  Parts.induction
    { expression := by
        rintro ⟨id, terms⟩ ih readable
        have each : ∀ t ∈ terms, ReadsAs t.text t.kinds := fun t ht =>
          ih t ht fun k hk => readable k (Expression.mem_kinds ht hk)
        rw [Expression.kinds_eq, Expression.text, Term.texts_eq_map]
        exact ReadsAs.intercalate ((Sign.punctuation (c := '|') rfl).spaced) each
      term := by
        rintro ⟨id, factors⟩ ih readable
        have each : ∀ f ∈ factors, ReadsAs f.text f.kinds := fun f hf =>
          ih f hf fun k hk => readable k (Term.mem_kinds hf hk)
        rw [Term.kinds_eq_flatMap, Term.text, Factor.texts_eq_map, List.flatMap_def]
        have whole := ReadsAs.intercalate .space each
        rwa [nil_intercalate_eq] at whole
      identifier := by
        intro id name readable
        rw [Factor.kinds, List.forall_mem_singleton] at readable
        exact .name readable
      literal := by
        intro id l readable
        exact (Sign.literal (readable _ (by simp [Factor.kinds]))).readsAs
      bracketed := by
        intro id bracket body ih readable
        have inside := ih fun k hk => readable k (by simp [Factor.kinds, hk])
        have whole := (Sign.opener bracket).append (inside.append_sign (Sign.closer bracket))
        rw [← String.append_assoc] at whole
        exact whole }

theorem Production.readsAs {p : Production} (readable : ∀ k ∈ p.kinds, k.Readable) :
    ReadsAs p.text p.kinds := by
  simp only [Production.kinds, List.forall_mem_cons, List.forall_mem_append] at readable
  obtain ⟨name, -, body, -⟩ := readable
  have equals : Sign " = " [.equals] := (Sign.punctuation (c := '=') rfl).spaced
  have period : Sign " ." [.period] := Sign.space.append_sign (.punctuation (c := '.') rfl)
  have inside := (Parts.readsAs.1 p.body body).append_sign period
  have whole := (ReadsAs.name name).append (equals.append inside) (equals.startsPlain _)
  rw [← String.append_assoc, ← String.append_assoc] at whole
  exact whole

theorem Grammar.readsAs {g : Grammar} (readable : ∀ k ∈ g.kinds, k.Readable) :
    ReadsAs g.text g.kinds := by
  have each : ∀ p ∈ g.productions, ReadsAs p.text p.kinds := fun p hp =>
    Production.readsAs fun k hk => readable k (List.mem_flatMap.mpr ⟨p, hp, hk⟩)
  have whole := ReadsAs.intercalate (.blank (c := '\n') (by decide)) each
  rwa [nil_intercalate_eq, ← List.flatMap_def] at whole

/-- A whole text reads as these kinds and nothing else. -/
theorem ReadsAs.reading_eq {text : String} {kinds : List Kind} (h : ReadsAs text kinds) :
    (Scanner.ofString text).reading = ⟨kinds, .complete⟩ := by
  have whole := h [] (by simp [StartsPlain])
  rw [List.append_nil, Reading.of_nil] at whole
  simpa [Reading.prepend] using (Scanner.reading_eq (.ofString text)).trans whole

/-- A text reads as one list of kinds only. -/
theorem ReadsAs.kinds_eq {text : String} {kinds kinds' : List Kind} (h : ReadsAs text kinds)
    (h' : ReadsAs text kinds') : kinds = kinds' :=
  congrArg Reading.kinds (h.reading_eq.symm.trans h'.reading_eq)

/-! ### Reading canonical text -/

/-- Reading a text depends on nothing but the kinds of its tokens. -/
theorem Grammar.parse_eq_ok_iff_reading {text : String} {n : Nat} {parsed : Parsed} :
    (parse text n).result = .ok parsed ↔
      ∃ kinds, (Scanner.ofString text).reading = ⟨kinds, .complete⟩ ∧
        parsed.grammar.TreeOf kinds n ∧ parsed.issued = n + parsed.grammar.size := by
  simp only [parse_eq_ok_iff, Scanner.reading_eq_complete_iff]
  constructor
  · rintro ⟨tokens, last, scanned, tree, issued⟩
    exact ⟨_, ⟨tokens, last, scanned, rfl⟩, tree, issued⟩
  · rintro ⟨_, ⟨tokens, last, scanned, rfl⟩, tree, issued⟩
    exact ⟨tokens, last, scanned, tree, issued⟩

/-- The tokens of a tree that was read can be read again. -/
theorem Grammar.TreeOf.readable {s : Scanner} {kinds : List Kind} {n : Nat} {g : Grammar}
    (reading : s.reading = ⟨kinds, .complete⟩) (tree : g.TreeOf kinds n) :
    ∀ k ∈ g.kinds, k.Readable := by
  intro k hk
  rw [tree.kinds] at hk
  exact Scanner.readable_of_mem_reading (by rwa [reading])

/-- A grammar has its own structure. -/
theorem Grammar.sameStructure_self (g : Grammar) : g.sameStructure g = true := by
  have pairs : g.productions.zip g.productions = g.productions.map fun p => (p, p) := by
    rw [List.zip_eq_zipWith, List.zipWith_self]
  simp [sameStructure, Production.sameSymbol, pairs]

/-- **Canonical text is read as the tree that it is the text of.** Reading the canonical text of
what was read, from the same ids on, gives the same tree, ids included, and as many ids are given
out; so the text written for it is the same again. -/
theorem Grammar.parse_text_of_parse {text : String} {n : Nat} {parsed : Parsed}
    (h : (parse text n).result = .ok parsed) :
    ∃ again, (parse parsed.grammar.text n).result = .ok again ∧ again = parsed ∧
      again.grammar.sameStructure parsed.grammar = true ∧
      again.grammar.text = parsed.grammar.text := by
  obtain ⟨kinds, reading, tree, issued⟩ := parse_eq_ok_iff_reading.mp h
  have canonical := (Grammar.readsAs (tree.readable reading)).reading_eq
  rw [tree.kinds] at canonical
  have again : (parse parsed.grammar.text n).result = .ok parsed :=
    parse_eq_ok_iff_reading.mpr ⟨kinds, canonical, tree, issued⟩
  exact ⟨parsed, again, rfl, sameStructure_self parsed.grammar, rfl⟩

/-- Typographic quotation marks and a space in a literal are written in another way than they were
read, and read as the same tree. -/
theorem Grammar.parse_text_of_parse_quoted :
    let parsed : Parsed := ⟨⟨8, [⟨9, ⟨10, "A"⟩, ⟨11, [⟨12, [.bracketed 13 .repetition
      ⟨14, [⟨15, [.literal 16 ⟨17, "x\u2423y"⟩]⟩, ⟨18, [.identifier 19 ⟨20, "b"⟩]⟩]⟩]⟩]⟩⟩]⟩, 20⟩
    (parse "A=\x7b\u201cx y\u201d|b\x7d." 7).result = .ok parsed ∧
      parsed.grammar.text = "A = \x7b\"x\u2423y\" | b\x7d ." ∧
      ∃ again, (parse parsed.grammar.text 7).result = .ok again ∧ again = parsed ∧
        again.grammar.sameStructure parsed.grammar = true ∧
        again.grammar.text = parsed.grammar.text := by
  have read : (parse "A=\x7b\u201cx y\u201d|b\x7d." 7).result =
      .ok ⟨⟨8, [⟨9, ⟨10, "A"⟩, ⟨11, [⟨12, [.bracketed 13 .repetition
        ⟨14, [⟨15, [.literal 16 ⟨17, "x\u2423y"⟩]⟩,
          ⟨18, [.identifier 19 ⟨20, "b"⟩]⟩]⟩]⟩]⟩⟩]⟩, 20⟩ := by
    cbv
  exact ⟨read, by decide +kernel, parse_text_of_parse read⟩

/-- The canonical text of a tree that fits is accepted if its tokens can be read. Ids are given out
from 1 on. -/
theorem Grammar.ofString?_text {h : Grammar} (fits : h.Fits maxNesting)
    (readable : ∀ k ∈ h.kinds, k.Readable) : ofString? h.text = .ok (h.number 0) := by
  have canonical := (Grammar.readsAs readable).reading_eq
  obtain ⟨tokens, last, scanned, kinds⟩ := Scanner.reading_eq_complete_iff.mp canonical
  exact ofString?_eq_ok_iff.mpr ⟨tokens, last, scanned, kinds ▸ fits.treeOf 0⟩

/-! ### Parts of what was read -/

/-- The expression fits, and its tokens can be read. -/
structure Expression.Legible (e : Expression) : Prop where
  fits : e.Fits maxNesting
  readable : ∀ k ∈ e.kinds, k.Readable

/-- The term fits, and its tokens can be read. -/
structure Term.Legible (t : Term) : Prop where
  fits : t.Fits maxNesting
  readable : ∀ k ∈ t.kinds, k.Readable

/-- The factor fits, and its tokens can be read. -/
structure Factor.Legible (f : Factor) : Prop where
  fits : f.Fits maxNesting
  readable : ∀ k ∈ f.kinds, k.Readable

theorem Expression.Legible.term {e : Expression} (h : e.Legible) {t : Term} (ht : t ∈ e.terms) :
    t.Legible where
  fits := (Expression.fits_iff.mp h.fits).2 t ht
  readable k hk := h.readable k (Expression.mem_kinds ht hk)

theorem Term.Legible.factor {t : Term} (h : t.Legible) {f : Factor} (hf : f ∈ t.factors) :
    f.Legible where
  fits := (Term.fits_iff.mp h.fits).2 f hf
  readable k hk := h.readable k (Term.mem_kinds hf hk)

theorem Factor.Legible.body {id : NodeId} {bracket : Bracket} {body : Expression}
    (h : (Factor.bracketed id bracket body).Legible) : body.Legible where
  fits := Parts.fits_succ.1 body _ (Factor.fits_bracketed.mp h.fits)
  readable k hk := h.readable k (by simp [Factor.kinds, hk])

/-- **The parts of what was read are legible.** -/
theorem Grammar.TreeOf.legible {s : Scanner} {kinds : List Kind} {n : Nat} {g : Grammar}
    (reading : s.reading = ⟨kinds, .complete⟩) (tree : g.TreeOf kinds n) :
    ∀ p ∈ g.productions, p.body.Legible := by
  intro p hp
  refine ⟨tree.fits p hp, fun k hk => tree.readable reading k (List.mem_flatMap.mpr ⟨p, hp, ?_⟩)⟩
  simp [Production.kinds, hk]

theorem Grammar.legible_of_ofString? {text : String} {g : Grammar}
    (h : Grammar.ofString? text = .ok g) : ∀ p ∈ g.productions, p.body.Legible := by
  obtain ⟨tokens, last, scanned, tree⟩ := ofString?_eq_ok_iff.mp h
  exact tree.legible (Scanner.reading_eq_complete_iff.mpr ⟨tokens, last, scanned, rfl⟩)

/-- Factors read as the same kinds when their canonical texts are equal. -/
theorem Factor.kinds_eq_of_sameSymbol {a b : Factor} (ha : a.Legible) (hb : b.Legible)
    (same : a.sameSymbol b = true) : a.kinds = b.kinds := by
  have text : a.text = b.text := by simpa [sameSymbol] using same
  exact (Parts.readsAs.2.2 a ha.readable).kinds_eq (text ▸ Parts.readsAs.2.2 b hb.readable)

/-- **Equal canonical texts are those of one tree.** Legible factors with one canonical text are the
same but for their ids. -/
theorem Factor.number_eq_of_sameSymbol {a b : Factor} (ha : a.Legible) (hb : b.Legible)
    (same : a.sameSymbol b = true) (n : Nat) : a.number n = b.number n :=
  number_eq_of_kinds_eq ha.fits hb.fits (kinds_eq_of_sameSymbol ha hb same) n

end Railroad
