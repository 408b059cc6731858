/-
ExponentialHistogram.Json.Token — JSON text as a list of tokens.

Scanning never fails: where the text stops being JSON the list ends with the
token `invalid`. A reader that goes through the tokens from left to right
therefore meets a wrong shape and a broken text in the order in which they
stand. White space separates tokens and is gone afterwards.
-/
import ExponentialHistogram.Text.Hexadecimal

namespace ExponentialHistogram.Json

open Text (hexNumber?)

/-- A number as it is spelled, digits as characters. A fraction has at least one digit, so no
digits mean no fraction. The sign of the exponent is `true` for minus. -/
structure Numeral where
  negative : Bool
  whole : List Char
  fraction : List Char
  exponent : Option (Bool × List Char)
deriving DecidableEq, Repr

/-- A character of a string, or a 16-bit unit given by its number. -/
inductive Piece where
  | char (c : Char)
  | unit (n : Nat)
deriving DecidableEq, Repr

inductive Token where
  | openBrace
  | closeBrace
  | openBracket
  | closeBracket
  | colon
  | comma
  | null
  | boolean (b : Bool)
  | number (n : Numeral)
  | string (pieces : List Piece)
  | invalid
deriving DecidableEq, Repr

/-! ## Strings -/

/-- The text of a string. Two units that form a surrogate pair are one character; a surrogate
that stands alone is no character at all. -/
def decode? : List Piece → Option (List Char)
  | [] => some []
  | .char c :: rest => (decode? rest).map (c :: ·)
  | .unit n :: rest =>
    if n < 0xD800 ∨ 0xE000 ≤ n then (decode? rest).map (Char.ofNat n :: ·)
    else match rest with
      | .unit m :: rest =>
        if n < 0xDC00 ∧ 0xDC00 ≤ m ∧ m < 0xE000 then
          (decode? rest).map (Char.ofNat (0x10000 + (n - 0xD800) * 0x400 + (m - 0xDC00)) :: ·)
        else none
      | _ => none

/-- What a backslash and this character stand for. -/
def escaped? : Char → Option Char
  | '"' => some '"'
  | '\\' => some '\\'
  | '/' => some '/'
  | 'b' => some '\x08'
  | 'f' => some '\x0c'
  | 'n' => some '\n'
  | 'r' => some '\r'
  | 't' => some '\t'
  | _ => none

/-- The rest of a string after its opening quote, and what follows the closing one. Control
characters have to be escaped. -/
def scanString : List Char → Option (List Piece × List Char)
  | [] => none
  | '"' :: rest => some ([], rest)
  | '\\' :: 'u' :: a :: b :: c :: d :: rest => do
    let n ← hexNumber? [a, b, c, d]
    let (pieces, rest) ← scanString rest
    return (.unit n :: pieces, rest)
  | '\\' :: e :: rest => do
    let c ← escaped? e
    let (pieces, rest) ← scanString rest
    return (.char c :: pieces, rest)
  | c :: rest =>
    if c < ' ' then none
    else do
      let (pieces, rest) ← scanString rest
      return (.char c :: pieces, rest)

/-! ## Numbers -/

/-- The digits at the front, and the rest. -/
def splitDigits (cs : List Char) : List Char × List Char :=
  (cs.takeWhile Char.isDigit, cs.dropWhile Char.isDigit)

/-- A point and at least one digit, or nothing. -/
def scanFraction : List Char → Option (List Char × List Char)
  | '.' :: rest =>
    match splitDigits rest with
    | ([], _) => none
    | split => some split
  | rest => some ([], rest)

/-- The sign in front of an exponent, and the rest. -/
def splitSign : List Char → Bool × List Char
  | '+' :: rest => (false, rest)
  | '-' :: rest => (true, rest)
  | rest => (false, rest)

/-- The letter `e`, a sign or none, and at least one digit, or nothing. -/
def scanExponent : List Char → Option (Option (Bool × List Char) × List Char)
  | c :: rest =>
    if c = 'e' ∨ c = 'E' then
      let (negative, rest) := splitSign rest
      match splitDigits rest with
      | ([], _) => none
      | (digits, rest) => some (some (negative, digits), rest)
    else some (none, c :: rest)
  | [] => some (none, [])

/-- A number without its sign. It has no superfluous leading zero. -/
def scanNumeral (negative : Bool) (cs : List Char) : Option (Numeral × List Char) :=
  match splitDigits cs with
  | ([], _) => none
  | ('0' :: _ :: _, _) => none
  | (whole, rest) => do
    let (fraction, rest) ← scanFraction rest
    let (exponent, rest) ← scanExponent rest
    return (⟨negative, whole, fraction, exponent⟩, rest)

/-! ## Tokens -/

def isBlank (c : Char) : Bool := c == ' ' || c == '\t' || c == '\n' || c == '\r'

def punctuation? : Char → Option Token
  | '\x7b' => some .openBrace
  | '\x7d' => some .closeBrace
  | '[' => some .openBracket
  | ']' => some .closeBracket
  | ':' => some .colon
  | ',' => some .comma
  | _ => none

def scanWord : List Char → Option (Token × List Char)
  | 'n' :: 'u' :: 'l' :: 'l' :: rest => some (.null, rest)
  | 't' :: 'r' :: 'u' :: 'e' :: rest => some (.boolean true, rest)
  | 'f' :: 'a' :: 'l' :: 's' :: 'e' :: rest => some (.boolean false, rest)
  | _ => none

/-- The string, number or word at the front, and what follows it. -/
def scanScalar : List Char → Option (Token × List Char)
  | [] => none
  | c :: rest =>
    if c = '"' then (scanString rest).map fun (pieces, rest) => (.string pieces, rest)
    else if c = '-' then (scanNumeral true rest).map fun (n, rest) => (.number n, rest)
    else if c.isDigit then (scanNumeral false (c :: rest)).map fun (n, rest) => (.number n, rest)
    else scanWord (c :: rest)

/-! What is left after a token is a shorter text. -/

theorem length_lt_of_scanString {cs : List Char} {pieces : List Piece} {rest : List Char}
    (h : scanString cs = some (pieces, rest)) : rest.length < cs.length := by
  fun_induction scanString cs generalizing pieces rest with
  | case1 => simp at h
  | case2 => simp at h; simp [h]
  | case3 a b c d tail ih =>
    simp only [Option.bind_eq_bind, Option.bind_eq_some_iff, Prod.exists, Option.pure_def,
      Option.some.injEq, Prod.mk.injEq] at h
    obtain ⟨_, _, _, _, scanned, -, rfl⟩ := h
    have := ih scanned
    simp only [List.length_cons]
    omega
  | case4 e tail _ ih =>
    simp only [Option.bind_eq_bind, Option.bind_eq_some_iff, Prod.exists, Option.pure_def,
      Option.some.injEq, Prod.mk.injEq] at h
    obtain ⟨_, _, _, _, scanned, -, rfl⟩ := h
    have := ih scanned
    simp only [List.length_cons]
    omega
  | case5 => simp at h
  | case6 c tail _ _ _ _ ih =>
    simp only [Option.bind_eq_bind, Option.bind_eq_some_iff, Prod.exists, Option.pure_def,
      Option.some.injEq, Prod.mk.injEq] at h
    obtain ⟨_, _, scanned, -, rfl⟩ := h
    have := ih scanned
    simp only [List.length_cons]
    omega

theorem length_splitDigits (cs : List Char) :
    (splitDigits cs).1.length + (splitDigits cs).2.length = cs.length := by
  rw [splitDigits, ← List.length_append, List.takeWhile_append_dropWhile]

theorem length_le_of_scanFraction {cs fraction rest : List Char}
    (h : scanFraction cs = some (fraction, rest)) : rest.length ≤ cs.length := by
  unfold scanFraction at h
  split at h
  · next tail =>
    have lengths := length_splitDigits tail
    split at h
    · simp at h
    · simp only [Option.some.injEq] at h
      rw [h] at lengths
      simp only [List.length_cons] at lengths ⊢
      omega
  · cases h
    exact Nat.le_refl _

theorem length_splitSign_le (cs : List Char) : (splitSign cs).2.length ≤ cs.length := by
  unfold splitSign
  split <;> simp

theorem length_le_of_scanExponent {cs rest : List Char} {exponent : Option (Bool × List Char)}
    (h : scanExponent cs = some (exponent, rest)) : rest.length ≤ cs.length := by
  unfold scanExponent at h
  split at h
  · next c tail =>
    have sign := length_splitSign_le tail
    have lengths := length_splitDigits (splitSign tail).2
    split at h
    · simp only at h
      split at h
      · simp at h
      · next digits _ split =>
        cases h
        rw [split] at lengths
        simp only [List.length_cons] at lengths ⊢
        omega
    · cases h
      exact Nat.le_refl _
  · cases h
    exact Nat.le_refl _

theorem length_lt_of_scanNumeral {negative : Bool} {cs rest : List Char} {n : Numeral}
    (h : scanNumeral negative cs = some (n, rest)) : rest.length < cs.length := by
  unfold scanNumeral at h
  have lengths := length_splitDigits cs
  split at h
  · simp at h
  · simp at h
  · next whole tail nonempty _ split =>
    simp only [Option.bind_eq_bind, Option.bind_eq_some_iff, Prod.exists, Option.pure_def,
      Option.some.injEq, Prod.mk.injEq] at h
    obtain ⟨_, _, fraction, _, _, exponent, -, rfl⟩ := h
    have := length_le_of_scanFraction fraction
    have := length_le_of_scanExponent exponent
    have : whole.length ≠ 0 := fun h => nonempty (List.eq_nil_of_length_eq_zero h)
    rw [split] at lengths
    simp only at lengths
    omega

theorem length_lt_of_scanScalar {cs rest : List Char} {t : Token}
    (h : scanScalar cs = some (t, rest)) : rest.length < cs.length := by
  unfold scanScalar at h
  split at h
  · simp at h
  next c tail =>
  simp only [List.length_cons]
  split at h
  · simp only [Option.map_eq_some_iff, Prod.exists, Prod.mk.injEq] at h
    obtain ⟨_, _, scanned, -, rfl⟩ := h
    exact Nat.lt_succ_of_lt (length_lt_of_scanString scanned)
  split at h
  · simp only [Option.map_eq_some_iff, Prod.exists, Prod.mk.injEq] at h
    obtain ⟨_, _, scanned, -, rfl⟩ := h
    exact Nat.lt_succ_of_lt (length_lt_of_scanNumeral scanned)
  split at h
  · simp only [Option.map_eq_some_iff, Prod.exists, Prod.mk.injEq] at h
    obtain ⟨_, _, scanned, -, rfl⟩ := h
    exact length_lt_of_scanNumeral scanned
  · unfold scanWord at h
    split at h <;> simp_all <;> omega

/-- The tokens of a text. -/
def scan : List Char → List Token
  | [] => []
  | c :: rest =>
    if isBlank c then scan rest
    else match punctuation? c with
      | some t => t :: scan rest
      | none =>
        match _h : scanScalar (c :: rest) with
        | some (t, rest) => t :: scan rest
        | none => [.invalid]
termination_by cs => cs.length
decreasing_by
  · simp
  · simp
  · exact length_lt_of_scanScalar _h

end ExponentialHistogram.Json
