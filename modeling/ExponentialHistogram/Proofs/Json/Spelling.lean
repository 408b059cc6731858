/-
ExponentialHistogram.Proofs.Json.Spelling — tokens and the texts that spell them.

`Token.Spells` says how a token may be written. For strings it rests on
`SpellsPieces` and for numbers on `Numeral.Spells`. Tokens are spelled out one
after the other with blanks anywhere between them (`SpelledOut`). Whatever the
blanks and the spelling, scanning gives the tokens back (`scan_of_spelledOut`).

The pieces of a string stand for a text (`StandFor`), unless half of a pair stands
alone. Such a string is a string all the same.

Two words or numbers with nothing between them would grow together. Between
punctuation marks that cannot happen, so of two tokens that follow one another at
least one has to be such a mark (`Punctuated`). In JSON values it always is.
-/
import Mathlib
import ExponentialHistogram.Json.Token

namespace ExponentialHistogram.Json

open Text (hexNumber?)

/-! ## How tokens are written -/

/-- The characters that may stand behind a backslash, with what they stand for. -/
def shortEscapes : List (Char × Char) :=
  [('"', '"'), ('\\', '\\'), ('/', '/'), ('b', '\x08'), ('f', '\x0c'), ('n', '\n'), ('r', '\r'),
    ('t', '\t')]

/-- A character as it is or behind a backslash, or a unit in four digits. -/
inductive Piece.Spells : Piece → List Char → Prop where
  | plain {c : Char} (hcontrol : ¬ c < ' ') (hquote : c ≠ '"') (hbackslash : c ≠ '\\') :
    Spells (.char c) [c]
  | short {e c : Char} (h : (e, c) ∈ shortEscapes) : Spells (.char c) ['\\', e]
  | unit {n : ℕ} {a b c d : Char} (h : hexNumber? [a, b, c, d] = some n) :
    Spells (.unit n) ['\\', 'u', a, b, c, d]

/-- The pieces one after the other. -/
inductive SpellsPieces : List Piece → List Char → Prop where
  | nil : SpellsPieces [] []
  | cons {p : Piece} {ps : List Piece} {cs rest : List Char} (h : p.Spells cs)
    (hrest : SpellsPieces ps rest) : SpellsPieces (p :: ps) (cs ++ rest)

/-- One digit or more. -/
structure IsDigits (cs : List Char) : Prop where
  ne_nil : cs ≠ []
  isDigit : ∀ c ∈ cs, c.isDigit = true

/-- Nothing, or a point and digits. -/
inductive SpellsFraction : List Char → List Char → Prop where
  | nothing : SpellsFraction [] []
  | digits {ds : List Char} (h : IsDigits ds) : SpellsFraction ds ('.' :: ds)

/-- Nothing, or the letter `e` of either case, a sign and digits. A plus sign may be left out. -/
inductive SpellsExponent : Option (Bool × List Char) → List Char → Prop where
  | nothing : SpellsExponent none []
  | digits {letter : Char} {negative : Bool} {sign ds : List Char}
    (hletter : letter = 'e' ∨ letter = 'E')
    (hsign : (negative, sign) ∈ [(false, []), (false, ['+']), (true, ['-'])]) (h : IsDigits ds) :
    SpellsExponent (some (negative, ds)) (letter :: (sign ++ ds))

/-- A number without leading zeros. -/
inductive Numeral.Spells : Numeral → List Char → Prop where
  | intro {negative : Bool} {whole fraction f e : List Char} {exponent : Option (Bool × List Char)}
    (hwhole : IsDigits whole) (hzero : whole.head? = some '0' → whole = ['0'])
    (hfraction : SpellsFraction fraction f) (hexponent : SpellsExponent exponent e) :
    Spells ⟨negative, whole, fraction, exponent⟩
      ((if negative then ['-'] else []) ++ (whole ++ (f ++ e)))

def Token.Spells : Token → List Char → Prop
  | openBrace, cs => cs = ['\x7b']
  | closeBrace, cs => cs = ['\x7d']
  | openBracket, cs => cs = ['[']
  | closeBracket, cs => cs = [']']
  | colon, cs => cs = [':']
  | comma, cs => cs = [',']
  | null, cs => cs = "null".toList
  | boolean b, cs => cs = (if b then "true" else "false").toList
  | number n, cs => n.Spells cs
  | string ps, cs => ∃ inner, SpellsPieces ps inner ∧ cs = '"' :: (inner ++ ['"'])
  | invalid, _ => False

def Token.IsMark : Token → Prop
  | openBrace | closeBrace | openBracket | closeBracket | colon | comma => True
  | _ => False

/-- The tokens one after the other, with blanks wherever one likes between them. -/
inductive SpelledOut : List Token → List Char → Prop where
  | nil : SpelledOut [] []
  | blank {c : Char} {ts : List Token} {cs : List Char} (hblank : isBlank c = true)
    (h : SpelledOut ts cs) : SpelledOut ts (c :: cs)
  | token {t : Token} {ts : List Token} {cs rest : List Char} (ht : t.Spells cs)
    (h : SpelledOut ts rest) : SpelledOut (t :: ts) (cs ++ rest)

/-- No two tokens follow one another without a punctuation mark. -/
def Punctuated (ts : List Token) : Prop := ts.IsChain fun t t' => t.IsMark ∨ t'.IsMark

/-! ## Strings -/

variable {rest cs : List Char}

theorem escaped?_of_mem {e c : Char} (h : (e, c) ∈ shortEscapes) :
    escaped? e = some c ∧ e ≠ 'u' := by
  have hall : ∀ p ∈ shortEscapes, escaped? p.1 = some p.2 ∧ p.1 ≠ 'u' := by decide
  exact hall _ h

/-- One piece in front of a string. -/
theorem Piece.Spells.scanString {p : Piece} {pieces : List Piece} {tail : List Char}
    (h : p.Spells cs) (htail : scanString tail = some (pieces, rest)) :
    scanString (cs ++ tail) = some (p :: pieces, rest) := by
  cases h with
  | plain hcontrol hquote hbackslash =>
    rw [List.singleton_append, scanString.eq_5 _ _ hquote (fun _ _ _ _ _ h => absurd h hbackslash)
      (fun _ _ h => absurd h hbackslash), if_neg hcontrol, htail]
    rfl
  | short hmem =>
    -- A code would begin with `u`, which is no short escape.
    obtain ⟨hescaped, hu⟩ := escaped?_of_mem hmem
    rw [List.cons_append, List.singleton_append,
      scanString.eq_4 _ _ fun _ _ _ _ _ h => absurd h hu, hescaped, htail]
    rfl
  | unit hhex =>
    rw [List.cons_append, List.cons_append, List.cons_append, List.cons_append, List.cons_append,
      List.singleton_append, scanString.eq_3, hhex, htail]
    rfl

theorem SpellsPieces.scanString {pieces : List Piece} (h : SpellsPieces pieces cs)
    (rest : List Char) : scanString (cs ++ '"' :: rest) = some (pieces, rest) := by
  induction h with
  | nil => exact scanString.eq_2 rest
  | cons hp _ ih =>
    rw [List.append_assoc]
    exact hp.scanString ih

/-- The text that pieces stand for. A character takes one unit, or two if it has more than 16
bits. -/
inductive StandFor : List Piece → List Char → Prop where
  | nil : StandFor [] []
  | char {c : Char} {ps : List Piece} {s : List Char} (h : StandFor ps s) :
    StandFor (.char c :: ps) (c :: s)
  | unit {c : Char} {ps : List Piece} {s : List Char} (h : StandFor ps s) :
    StandFor (.unit c.toNat :: ps) (c :: s)
  | pair {c : Char} {high low : ℕ} {ps : List Piece} {s : List Char} (hhigh : high < 0x400)
    (hlow : low < 0x400) (hc : c.toNat = 0x10000 + high * 0x400 + low) (h : StandFor ps s) :
    StandFor (.unit (0xD800 + high) :: .unit (0xDC00 + low) :: ps) (c :: s)

theorem StandFor.decode? {ps : List Piece} {s : List Char} (h : StandFor ps s) :
    decode? ps = some s := by
  induction h with
  | nil => rfl
  | char _ ih => rw [Json.decode?, ih]; rfl
  | @unit c _ _ _ ih =>
    have hsurrogate : c.toNat < 0xD800 ∨ 0xE000 ≤ c.toNat :=
      c.valid.imp id fun h => Nat.succ_le_of_lt h.1
    rw [Json.decode?.eq_def]
    simp only
    rw [if_pos hsurrogate, ih, Char.ofNat_toNat]
    rfl
  | @pair c high low _ _ hhigh hlow hc _ ih =>
    have hfirst : ¬ (0xD800 + high < 0xD800 ∨ 0xE000 ≤ 0xD800 + high) := by omega
    have hboth : 0xD800 + high < 0xDC00 ∧ 0xDC00 ≤ 0xDC00 + low ∧ 0xDC00 + low < 0xE000 := by omega
    have hcode :
        0x10000 + (0xD800 + high - 0xD800) * 0x400 + (0xDC00 + low - 0xDC00) = c.toNat := by
      omega
    rw [Json.decode?, if_neg hfirst, if_pos hboth, ih, hcode, Char.ofNat_toNat]
    rfl

/-- No character of the text has to be escaped. -/
def isPlain (s : List Char) : Bool := s.all fun c => ¬ c < ' ' ∧ c ≠ '"' ∧ c ≠ '\\'

theorem standFor_char (s : List Char) : StandFor (s.map .char) s := by
  induction s with
  | nil => exact .nil
  | cons c s ih => exact .char ih

theorem spellsPieces_char {s : List Char} (h : isPlain s = true) :
    SpellsPieces (s.map .char) s := by
  induction s with
  | nil => exact .nil
  | cons c s ih =>
    rw [isPlain, List.all_cons, Bool.and_eq_true, decide_eq_true_eq] at h
    obtain ⟨⟨hcontrol, hquote, hbackslash⟩, hs⟩ := h
    exact .cons (.plain hcontrol hquote hbackslash) (ih hs)

/-! ## Numbers -/

/-- The text does not go on with one of these characters. -/
def NotAhead (p : Char → Prop) (cs : List Char) : Prop := ∀ c ∈ cs.head?, ¬ p c

/-- What a number could go on with. -/
def IsNumeric (c : Char) : Prop := c.isDigit = true ∨ c = '.' ∨ c = 'e' ∨ c = 'E'

variable {p q : Char → Prop}

theorem NotAhead.mono (h : NotAhead p cs) (hpq : ∀ c, q c → p c) : NotAhead q cs :=
  fun c hc hq => h c hc (hpq c hq)

theorem IsDigits.exists_cons (h : IsDigits cs) : ∃ d ds, cs = d :: ds ∧ d.isDigit = true := by
  obtain ⟨d, ds, rfl⟩ := List.exists_cons_of_ne_nil h.ne_nil
  exact ⟨d, ds, rfl, h.isDigit d (List.mem_cons_self ..)⟩

theorem splitDigits_append {ds : List Char} (hds : IsDigits ds)
    (hrest : NotAhead (·.isDigit = true) rest) : splitDigits (ds ++ rest) = (ds, rest) := by
  have htake : rest.takeWhile Char.isDigit = [] := by
    cases rest with
    | nil => rfl
    | cons c rest => exact List.takeWhile_cons_of_neg (hrest c rfl)
  have hdrop : rest.dropWhile Char.isDigit = rest := by
    cases rest with
    | nil => rfl
    | cons c rest => exact List.dropWhile_cons_of_neg (hrest c rfl)
  rw [splitDigits, List.takeWhile_append_of_pos hds.isDigit, htake, List.append_nil,
    List.dropWhile_append_of_pos hds.isDigit, hdrop]

theorem SpellsFraction.scanFraction {fraction f : List Char} (h : SpellsFraction fraction f)
    (hrest : NotAhead (fun c => c.isDigit = true ∨ c = '.') rest) :
    scanFraction (f ++ rest) = some (fraction, rest) := by
  cases h with
  | nothing =>
    refine scanFraction.eq_2 _ fun tail h => ?_
    rw [List.nil_append] at h
    exact hrest '.' (by rw [h]; rfl) (Or.inr rfl)
  | digits hds =>
    rw [List.cons_append, Json.scanFraction,
      splitDigits_append hds (hrest.mono fun c hc => Or.inl hc)]
    obtain ⟨d, ds, rfl, -⟩ := hds.exists_cons
    rfl

/-- A digit is no sign. -/
theorem splitSign_append {negative : Bool} {sign ds : List Char} (hds : IsDigits ds)
    (h : (negative, sign) ∈ [(false, []), (false, ['+']), (true, ['-'])]) :
    splitSign (sign ++ (ds ++ rest)) = (negative, ds ++ rest) := by
  simp only [List.mem_cons, Prod.mk.injEq, List.not_mem_nil, or_false] at h
  obtain ⟨rfl, rfl⟩ | ⟨rfl, rfl⟩ | ⟨rfl, rfl⟩ := h
  · obtain ⟨d, ds, rfl, hdigit⟩ := hds.exists_cons
    refine splitSign.eq_3 _ (fun _ h => ?_) fun _ h => ?_
    all_goals
      obtain ⟨rfl, -⟩ := List.cons.inj h
      revert hdigit
      decide
  · rfl
  · rfl

theorem SpellsExponent.scanExponent {exponent : Option (Bool × List Char)} {e : List Char}
    (h : SpellsExponent exponent e)
    (hrest : NotAhead (fun c => c.isDigit = true ∨ c = 'e' ∨ c = 'E') rest) :
    scanExponent (e ++ rest) = some (exponent, rest) := by
  cases h with
  | nothing =>
    cases rest with
    | nil => rfl
    | cons c rest =>
      have hletter : ¬ (c = 'e' ∨ c = 'E') := fun hc => hrest c rfl (Or.inr hc)
      rw [List.nil_append, Json.scanExponent, if_neg hletter]
  | digits hletter hsign hds =>
    rw [List.cons_append, List.append_assoc, Json.scanExponent, if_pos hletter,
      splitSign_append hds hsign]
    simp only
    rw [splitDigits_append hds (hrest.mono fun c hc => Or.inl hc)]
    obtain ⟨d, ds, rfl, -⟩ := hds.exists_cons
    rfl

theorem SpellsExponent.notAhead {exponent : Option (Bool × List Char)} {e : List Char}
    (h : SpellsExponent exponent e) (hrest : NotAhead IsNumeric rest) :
    NotAhead (fun c => c.isDigit = true ∨ c = '.') (e ++ rest) := by
  cases h with
  | nothing => exact hrest.mono fun c hc => hc.imp_right Or.inl
  | digits hletter _ _ =>
    intro c hc
    obtain rfl : _ = c := Option.some.inj hc
    rcases hletter with rfl | rfl <;> decide

theorem SpellsFraction.notAhead {fraction f : List Char} (h : SpellsFraction fraction f)
    (hrest : NotAhead (fun c => c.isDigit = true ∨ c = '.') rest) :
    NotAhead (fun c => c.isDigit = true) (f ++ rest) := by
  cases h with
  | nothing => exact hrest.mono fun c hc => Or.inl hc
  | digits _ =>
    intro c hc
    obtain rfl : '.' = c := Option.some.inj hc
    decide

/-- A number is scanned behind its sign. -/
theorem scanNumeral_append (negative : Bool) {whole fraction f e : List Char}
    {exponent : Option (Bool × List Char)} (hwhole : IsDigits whole)
    (hzero : whole.head? = some '0' → whole = ['0']) (hfraction : SpellsFraction fraction f)
    (hexponent : SpellsExponent exponent e) (hrest : NotAhead IsNumeric rest) :
    scanNumeral negative (whole ++ (f ++ (e ++ rest)))
      = some (⟨negative, whole, fraction, exponent⟩, rest) := by
  have hbehind := hexponent.notAhead hrest
  have hscanExponent := hexponent.scanExponent
    (hrest.mono fun c hc => hc.imp_right Or.inr)
  rw [scanNumeral, splitDigits_append hwhole (hfraction.notAhead hbehind)]
  split
  · rename_i heq
    exact absurd (congrArg Prod.fst heq) hwhole.ne_nil
  · rename_i heq
    obtain rfl : whole = _ := congrArg Prod.fst heq
    cases hzero rfl
  · rename_i heq
    cases heq
    rw [hfraction.scanFraction hbehind]
    simp only [Option.bind_eq_bind, Option.bind_some, hscanExponent]
    rfl

/-! ## Scalars -/

/-- The blanks and the punctuation marks. -/
def delimiters : List Char := [' ', '\t', '\n', '\r', '\x7b', '\x7d', '[', ']', ':', ',']

/-- A number or a word may end here: a delimiter follows or nothing. -/
def AtEnd (rest : List Char) : Prop := ∀ c ∈ rest.head?, c ∈ delimiters

theorem IsNumeric.not_mem_delimiters {c : Char} (h : IsNumeric c) : c ∉ delimiters := by
  have hall : ∀ c ∈ delimiters, ¬ IsNumeric c := by simp [delimiters, IsNumeric]
  exact fun hmem => hall c hmem h

theorem AtEnd.notAhead (h : AtEnd rest) : NotAhead IsNumeric rest :=
  fun c hc hnumeric => hnumeric.not_mem_delimiters (h c hc)

theorem isBlank_of_not_mem {c : Char} (h : c ∉ delimiters) : isBlank c = false := by
  simp only [delimiters, List.mem_cons, not_or] at h
  simp [isBlank, h]

theorem punctuation?_of_not_mem {c : Char} (h : c ∉ delimiters) : punctuation? c = none := by
  unfold punctuation?
  split <;> first | rfl | exact absurd (by decide) h

variable {t : Token} {ts : List Token}

/-- The first character of a number. -/
theorem Numeral.Spells.exists_cons {n : Numeral} (h : n.Spells cs) :
    ∃ c tail, cs = c :: tail ∧ c ∉ delimiters := by
  obtain @⟨negative, whole, _, _, _, _, hwhole, -, -, -⟩ := h
  cases negative with
  | true => exact ⟨'-', _, rfl, by decide⟩
  | false =>
    obtain ⟨d, ds, rfl, hdigit⟩ := hwhole.exists_cons
    have hnumeric : IsNumeric d := Or.inl hdigit
    exact ⟨d, _, rfl, hnumeric.not_mem_delimiters⟩

/-- What is no mark does not look like one from its first character on. -/
theorem Token.Spells.exists_cons (h : t.Spells cs) (hmark : ¬ t.IsMark) :
    ∃ c tail, cs = c :: tail ∧ c ∉ delimiters := by
  cases t with
  | null => exact ⟨'n', _, h, by decide⟩
  | boolean b =>
    cases b with
    | true => exact ⟨'t', _, h, by decide⟩
    | false => exact ⟨'f', _, h, by decide⟩
  | number n => exact Numeral.Spells.exists_cons h
  | string ps =>
    obtain ⟨inner, -, rfl⟩ := h
    exact ⟨'"', _, rfl, by decide⟩
  | invalid => cases h
  | _ => exact absurd trivial hmark

theorem scanScalar_numeral {n : Numeral} (h : n.Spells cs) (hrest : AtEnd rest) :
    scanScalar (cs ++ rest) = some (.number n, rest) := by
  obtain @⟨negative, whole, _, f, e, _, hwhole, hzero, hfraction, hexponent⟩ := h
  have hscan := fun negative =>
    scanNumeral_append negative hwhole hzero hfraction hexponent hrest.notAhead
  cases negative with
  | true =>
    rw [if_pos rfl, List.singleton_append, List.cons_append, List.append_assoc, List.append_assoc,
      scanScalar, if_neg (by decide), if_pos rfl, hscan]
    rfl
  | false =>
    obtain ⟨d, ds, rfl, hdigit⟩ := hwhole.exists_cons
    have hquote : d ≠ '"' := by rintro rfl; revert hdigit; decide
    have hminus : d ≠ '-' := by rintro rfl; revert hdigit; decide
    rw [if_neg Bool.false_ne_true, List.nil_append, List.append_assoc, List.append_assoc,
      List.cons_append, scanScalar, if_neg hquote, if_neg hminus, if_pos hdigit,
      ← List.cons_append, hscan]
    rfl

/-- **A token that is no mark** is scanned up to its end. -/
theorem Token.Spells.scanScalar (h : t.Spells cs) (hmark : ¬ t.IsMark) (hrest : AtEnd rest) :
    scanScalar (cs ++ rest) = some (t, rest) := by
  cases t with
  | null =>
    obtain rfl : cs = _ := h
    rfl
  | boolean b =>
    obtain rfl : cs = _ := h
    cases b <;> rfl
  | number n => exact scanScalar_numeral h hrest
  | string ps =>
    obtain ⟨inner, hinner, rfl⟩ := h
    rw [List.cons_append, List.append_assoc, List.singleton_append, Json.scanScalar, if_pos rfl,
      hinner.scanString]
    rfl
  | invalid => cases h
  | _ => exact absurd trivial hmark

/-! ## Texts -/

theorem scan_blank {c : Char} (h : isBlank c = true) : scan (c :: rest) = scan rest := by
  rw [scan, if_pos h]

theorem Token.Spells.scan_mark (h : t.Spells cs) (hmark : t.IsMark) :
    scan (cs ++ rest) = t :: scan rest := by
  cases t with
  | openBrace | closeBrace | openBracket | closeBracket | colon | comma =>
    obtain rfl : cs = _ := h
    rw [List.singleton_append, scan]
    rfl
  | _ => cases hmark

theorem Token.Spells.scan_scalar (h : t.Spells cs) (hmark : ¬ t.IsMark) (hrest : AtEnd rest) :
    scan (cs ++ rest) = t :: scan rest := by
  have hscalar := h.scanScalar hmark hrest
  obtain ⟨c, tail, rfl, hc⟩ := h.exists_cons hmark
  rw [List.cons_append] at hscalar ⊢
  rw [scan, isBlank_of_not_mem hc, if_neg Bool.false_ne_true, punctuation?_of_not_mem hc]
  simp only
  split
  · rename_i heq
    cases hscalar.symm.trans heq
    rfl
  · rename_i heq
    cases hscalar.symm.trans heq

/-- A text that goes on with a mark, or with nothing but blanks. -/
theorem SpelledOut.atEnd (h : SpelledOut ts cs) (hmark : ∀ t ∈ ts.head?, t.IsMark) : AtEnd cs := by
  cases h with
  | nil => exact fun _ hc => nomatch hc
  | blank hblank h =>
    intro c hc
    obtain rfl : _ = c := Option.some.inj hc
    by_contra hnot
    rw [isBlank_of_not_mem hnot] at hblank
    cases hblank
  | @token t ts cs rest ht h =>
    have ht' := hmark t rfl
    cases t with
    | openBrace | closeBrace | openBracket | closeBracket | colon | comma =>
      obtain rfl : cs = _ := ht
      intro c hc
      obtain rfl : _ = c := Option.some.inj hc
      decide
    | _ => cases ht'

/-- **Scanning gives the tokens back**, whatever their spelling and the blanks between them. -/
theorem scan_of_spelledOut (h : SpelledOut ts cs) (hpunctuated : Punctuated ts) : scan cs = ts := by
  induction h with
  | nil => rw [scan]
  | blank hblank _ ih => rw [scan_blank hblank, ih hpunctuated]
  | @token t ts cs rest ht h ih =>
    by_cases hmark : t.IsMark
    · rw [ht.scan_mark hmark, ih hpunctuated.tail]
    · -- What is no mark needs one behind it, or the end.
      have hnext : ∀ t' ∈ ts.head?, t'.IsMark := fun t' ht' =>
        ((List.isChain_cons.mp hpunctuated).1 t' ht').resolve_left hmark
      rw [ht.scan_scalar hmark (h.atEnd hnext), ih hpunctuated.tail]

end ExponentialHistogram.Json
