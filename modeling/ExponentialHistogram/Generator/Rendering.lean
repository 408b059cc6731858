/-
ExponentialHistogram.Generator.Rendering — a table as source text.

A header names the scale, then follows one line for each entry: the
significand in hexadecimal, and behind it which power of two it stands for
and the double itself in decimal.
-/
import ExponentialHistogram.Decimal.Positional

namespace ExponentialHistogram.Generator

/-- At least thirteen hexadecimal digits. -/
def hexDigits (n : Nat) : List Char :=
  let digits := Nat.toDigits 16 n
  List.replicate (13 - digits.length) '0' ++ digits

/-- The decimal text of `1 + significand / 2 ^ 52`. Bits of a number that is no significand are laid
over those of the exponent. -/
def fractionText (significand : Nat) : List Char :=
  (Binary64.ofBitsNat (Binary64.exponentBias * 2 ^ 52 ||| significand)).positional

/-- The lines in front of the entries. -/
def headerLines (scale : Int) (size : Nat) : List String := [
  s!"// Code generated by `expo-table-gen {scale}`. DO NOT EDIT.",
  "",
  s!"//! Mantissa thresholds for scale {scale}.",
  "",
  s!"/// Entry `k` is the 52-bit significand of the smallest double not less than `2^(k/{size})`.",
  s!"pub(super) static THRESHOLDS: [u64; {size}] = ["]

/-- The line of the entry at a position. -/
def entryLine (size position significand : Nat) : List Char :=
  "    0x".toList ++ hexDigits significand ++ s!", // 2^({position}/{size}) == ".toList ++
    fractionText significand

def lines (scale : Int) (thresholds : List Nat) : List (List Char) :=
  let size := thresholds.length
  (headerLines scale size).map (·.toList) ++
    thresholds.zipIdx.map (fun (significand, position) => entryLine size position significand) ++
    ["];".toList]

/-- The source text of a table, every line ended by a newline. -/
def render (scale : Int) (thresholds : List Nat) : List Char :=
  (lines scale thresholds).flatMap (· ++ ['\n'])

end ExponentialHistogram.Generator
