/-
ExponentialHistogram.Settings.Value — what the text of a variable stands for.

A text is a whole number, a truth value, a character or a string in quotes,
a list in brackets or a table in braces, with blanks wherever they do no
harm. Any other text is a string just as it stands, also one that only
begins like something else. The one exception is a quoted string that cannot
be cut as it should be, which has no value at all. No setting is a list or a
table, so of these it only matters that they are well formed; of a table the
names of its members are kept, to say where it is wrong.
-/
import ExponentialHistogram.Settings.Numeral
import ExponentialHistogram.Text.Hexadecimal

namespace ExponentialHistogram.Settings

inductive Value where
  | text (s : List Char)
  | integer (n : Int)
  | table (names : List (List Char))
  /-- A truth value, a character or a list. -/
  | other
  /-- Stands where there is no value. No text has it. -/
  | empty
deriving DecidableEq, Repr

/-! ## Characters -/

/-- White space in any script. -/
def isSpace (c : Char) : Bool :=
  let n := c.toNat
  (9 ≤ n && n ≤ 13) || n == 0x20 || n == 0x85 || n == 0xA0 || n == 0x1680
    || (0x2000 ≤ n && n ≤ 0x200A) || n == 0x2028 || n == 0x2029 || n == 0x202F || n == 0x205F
    || n == 0x3000

/-- The white space that may stand between the parts of a value. -/
def isBlank (c : Char) : Bool := c ∈ [' ', '\t', '\n', '\x0c', '\r']

/-- What is left when such characters are removed at both ends. -/
def strip (p : Char → Bool) (cs : List Char) : List Char :=
  ((cs.dropWhile p).reverse.dropWhile p).reverse

/-- What ends a word. -/
def isSeparator (c : Char) : Bool := c ∈ [',', '[', ']', '\x7b', '\x7d']

/-- What the name of a member may consist of without quotes. -/
def isNameChar (c : Char) : Bool := c.isAlphanum || c == '_' || c == '-'

/-- Why there is no value at the front of a text. -/
inductive ReadFailure where
  /-- The text has another form. -/
  | otherForm
  /-- A quoted string would have to be cut within a character, and nothing can go on from there. -/
  | splitCharacter
deriving DecidableEq, Repr

/-! ## Quotes -/

/-- The character with this code, given by its digits. -/
def charOfCode? (digits : List Char) : Option Char := do
  let n ← Text.hexNumber? digits
  if n.isValidChar then some (Char.ofNat n) else none

/-- What a backslash and this character stand for. -/
def escaped? : Char → Option Char
  | '"' => some '"'
  | '\\' => some '\\'
  | 'b' => some '\x08'
  | 'f' => some '\x0c'
  | 'n' => some '\n'
  | 'r' => some '\r'
  | 't' => some '\t'
  | _ => none

/-- Control characters other than the tabulator have to be escaped. -/
def mayStandInQuotes (c : Char) : Bool := c == '\t' || (' ' ≤ c && c != '\x7f')

/-- What stands up to the closing quote, escapes included, and what follows that quote. -/
def splitQuoted? : List Char → Option (List Char × List Char)
  | [] => none
  | '"' :: rest => some ([], rest)
  | '\\' :: c :: rest => (splitQuoted? rest).map fun (inner, rest) => ('\\' :: c :: inner, rest)
  | c :: rest => (splitQuoted? rest).map fun (inner, rest) => (c :: inner, rest)

/-- The text that an inner part with escapes stands for. A code has four digits after a small `u`
and eight after a large one. -/
def unescape? : List Char → Option (List Char)
  | [] => some []
  | '\\' :: 'u' :: a :: b :: c :: d :: rest => do
    return (← charOfCode? [a, b, c, d]) :: (← unescape? rest)
  | '\\' :: 'U' :: a :: b :: c :: d :: e :: f :: g :: h :: rest => do
    return (← charOfCode? [a, b, c, d, e, f, g, h]) :: (← unescape? rest)
  | '\\' :: e :: rest => do return (← escaped? e) :: (← unescape? rest)
  | c :: rest => if mayStandInQuotes c then (unescape? rest).map (c :: ·) else none

/-- The characters that take up the first `n` bytes in UTF-8, if no character is split. -/
def takeBytes? : (n : Nat) → List Char → Option (List Char)
  | 0, _ => some []
  | _ + 1, [] => none
  | n + 1, c :: rest =>
    if c.utf8Size ≤ n + 1 then (takeBytes? (n + 1 - c.utf8Size) rest).map (c :: ·) else none

/-- The text that the part between quotes stands for. What stands in front of the first escape is
measured in characters and cut in bytes: of `n` characters the first `n` bytes are kept. Within
ASCII that is all of it. -/
def decodeQuoted (inner : List Char) : Except ReadFailure (List Char) :=
  let start := inner.takeWhile (· != '\\')
  let escapes := inner.dropWhile (· != '\\')
  if !start.all mayStandInQuotes then .error .otherForm
  else if escapes.isEmpty then .ok start
  else match takeBytes? start.length start with
    | none => .error .splitCharacter
    | some kept =>
      match unescape? escapes with
      | none => .error .otherForm
      | some text => .ok (kept ++ text)

/-- A quoted string without its opening quote, and what follows it. -/
def readQuoted (cs : List Char) : Except ReadFailure (List Char × List Char) :=
  match splitQuoted? cs with
  | none => .error .otherForm
  | some (inner, rest) => do return (← decodeQuoted inner, rest)

/-! ## Values -/

/-- The value of a word, which is a whole number or a string. -/
def Value.ofWord (word : List Char) : Value :=
  match natural? word with
  | some n => .integer n
  | none =>
    match integer? word with
    | some n => .integer n
    | none => .text word

/-- The name of a member and what follows it. -/
def readName : List Char → Except ReadFailure (List Char × List Char)
  | '"' :: rest => readQuoted rest
  | cs =>
    match cs.takeWhile isNameChar with
    | [] => .error .otherForm
    | name => .ok (name, cs.dropWhile isNameChar)

mutual

/-- The value at the front, and what follows it and the blanks behind it. The fuel bounds the number
of nested and successive values. -/
def readValue : (fuel : Nat) → List Char → Except ReadFailure (Value × List Char)
  | 0, _ => .error .otherForm
  | fuel + 1, cs => do
    let (value, rest) ← match cs.dropWhile isBlank with
      | 't' :: 'r' :: 'u' :: 'e' :: rest => .ok (.other, rest)
      | 'f' :: 'a' :: 'l' :: 's' :: 'e' :: rest => .ok (.other, rest)
      | '"' :: rest => (readQuoted rest).map fun (s, rest) => (.text s, rest)
      | '\'' :: _ :: '\'' :: rest => .ok (.other, rest)
      | '\'' :: _ => .error .otherForm
      | '[' :: rest => (readItems fuel rest).map fun rest => (.other, rest)
      | '\x7b' :: rest => (readMembers fuel rest).map fun (names, rest) => (.table names, rest)
      | cs =>
        .ok (.ofWord (strip isSpace (cs.takeWhile (!isSeparator ·))),
          cs.dropWhile (!isSeparator ·))
    return (value, rest.dropWhile isBlank)

/-- What follows a list of which the items from here on and the closing bracket are left. A comma
may stand behind the last item. -/
def readItems : (fuel : Nat) → List Char → Except ReadFailure (List Char)
  | 0, _ => .error .otherForm
  | _ + 1, ']' :: rest => .ok rest
  | fuel + 1, cs => do
    let (_, rest) ← readValue fuel cs
    match rest with
    | ',' :: rest => readItems fuel rest
    | ']' :: rest => .ok rest
    | _ => .error .otherForm

/-- The names of the members from here on, and what follows the closing brace. -/
def readMembers : (fuel : Nat) → List Char → Except ReadFailure (List (List Char) × List Char)
  | 0, _ => .error .otherForm
  | _ + 1, '\x7d' :: rest => .ok ([], rest)
  | fuel + 1, cs => do
    let (name, rest) ← readName (cs.dropWhile isBlank)
    match rest.dropWhile isBlank with
    | '=' :: rest => do
      let (_, rest) ← readValue fuel rest
      match rest with
      | ',' :: rest => do
        let (names, rest) ← readMembers fuel rest
        return (name :: names, rest)
      | '\x7d' :: rest => .ok ([name], rest)
      | _ => .error .otherForm
    | _ => .error .otherForm

end

namespace Value

/-- The value of a text, if nothing stops its reading. Of two calls nested in one another the inner
one has at least one character less, except that an item or a member may be all that is left, so the
fuel is enough. -/
def ofText? (cs : List Char) : Option Value :=
  match readValue (2 * cs.length + 2) cs with
  | .ok (value, []) => some value
  | .error .splitCharacter => none
  | _ => some (.text cs)

/-- The value of any text. One whose reading is stopped is taken as it stands. -/
def ofText (cs : List Char) : Value := (ofText? cs).getD (.text cs)

/-- The value when a later one is laid over it: tables are joined, otherwise the later one counts. -/
def overlay (earlier later : Value) : Value :=
  match earlier, later with
  | table names, table more => table (names ++ more)
  | _, later => later

end Value

end ExponentialHistogram.Settings
