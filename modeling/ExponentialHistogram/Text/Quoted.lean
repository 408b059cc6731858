/-
ExponentialHistogram.Text.Quoted — a text in double quotes.

Quotes and backslashes are escaped, the usual control characters have a
letter, and other characters that cannot be seen are spelled by their
hexadecimal code point in braces.
-/
import ExponentialHistogram.Text.Unprintable

namespace ExponentialHistogram.Text

def escape (c : Char) : List Char :=
  match c with
  | '"' => ['\\', '"']
  | '\\' => ['\\', '\\']
  | '\n' => ['\\', 'n']
  | '\r' => ['\\', 'r']
  | '\t' => ['\\', 't']
  | '\x00' => ['\\', '0']
  | c =>
    if isUnprintable c then ['\\', 'u', '\x7b'] ++ Nat.toDigits 16 c.toNat ++ ['\x7d'] else [c]

def quoted (cs : List Char) : List Char := '"' :: cs.flatMap escape ++ ['"']

end ExponentialHistogram.Text
