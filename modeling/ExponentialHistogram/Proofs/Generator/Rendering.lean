/-
ExponentialHistogram.Proofs.Generator.Rendering — the printed table is the table.

The source text of a table is read back by a reader of its own (`Listing.read?`):
the scale in the header, the declared length, and line by line the literal, the
position and the length in the comment, and the decimal number at the end. Every
line is read as what it was printed from, so the text determines the scale and the
thresholds (`render_readable`).

A literal has thirteen digits because a significand has 52 bits; zeros in front
change nothing. The decimal number is the shortest one that reads back, so its
nearest double is the one that the line is about.
-/
import Mathlib
import ExponentialHistogram.Generator.Rendering
import ExponentialHistogram.Proofs.Binary64.Decomposition
import ExponentialHistogram.Proofs.Decimal.Positional
import ExponentialHistogram.Proofs.Text.Scanner

namespace ExponentialHistogram.Generator

open Settings (digits? integer? digits?_toDigits integer?_toString toList_toString_nat
  mem_toString_int isDigit_of_mem_toDigits)
open Text (Scanner hexDigit? hexNumber? hexNumber?_toDigits hexNumber?_zeros isSome_of_hexNumber?)
open Text.Scanner (expect before between line many Reads ReadsLines)

/-! ## Reading a table -/

/-- What stands in the line of an entry. -/
structure Entry where
  /-- The digits behind `0x`. -/
  literal : List Char
  significand : Nat
  position : Nat
  size : Nat
  fraction : Fraction

/-- What stands in the text of a table. -/
structure Listing where
  scale : Int
  size : Nat
  entries : List Entry

/-- A hexadecimal literal, with the number that it spells. -/
def literal? (cs : List Char) : Option (List Char × Nat) := (hexNumber? cs).map (cs, ·)

/-- Reads the scale and the length from the lines in front of the entries. Both are named twice. -/
def header : Scanner (Int × Nat) := do
  let scale ← line (between "// Code generated by `expo-table-gen " "`. DO NOT EDIT." integer?)
  line (expect "")
  let scale' ← line (between "//! Mantissa thresholds for scale " "." integer?)
  line (expect "")
  let size ← line (between
    "/// Entry `k` is the 52-bit significand of the smallest double not less than `2^(k/" ")`."
    digits?)
  let size' ← line (between "pub(super) static THRESHOLDS: [u64; " "] = [" digits?)
  guard (scale = scale' ∧ size = size')
  return (scale, size)

/-- Reads the line of an entry. -/
def entry : Scanner Entry := do
  expect "    0x"
  let (literal, significand) ← before ", // 2^(" literal?
  let position ← before "/" digits?
  let size ← before ") == " digits?
  let fraction ← before "\n" decimal?
  return { literal, significand, position, size, fraction }

/-- Reads the text of a table. -/
def listing : Scanner Listing := do
  let (scale, size) ← header
  let entries ← many entry size
  line (expect "];")
  return { scale, size, entries }

/-- Reads a text that is the text of a table and nothing else. -/
def Listing.read? (text : List Char) : Option Listing := do
  let (listing, rest) ← listing.run text
  guard (rest = [])
  return listing

/-- The numbers that the literals spell, in their order. -/
def Listing.thresholds (l : Listing) : List Nat := l.entries.map (·.significand)

/-! ## The header -/

variable {scale : ℤ} {size : ℕ}

theorem not_mem_of_isDigit {text : List Char} (h : ∀ c ∈ text, c.isDigit = true) {c : Char}
    (hc : c.isDigit = false) : c ∉ text := by
  intro hmem
  rw [h c hmem] at hc
  cases hc

theorem reads_scale (hlow : -2 ^ 31 ≤ scale) (hhigh : scale < 2 ^ 31) {front back : String} {c : Char}
    {cs : List Char} (hback : back.toList = c :: cs) (hminus : c ≠ '-') (hdigit : c.isDigit = false) :
    Reads (between front back integer?) (front.toList ++ (toString scale).toList ++ back.toList)
      scale := by
  refine .between (integer?_toString (by omega) (by omega)) hback fun hmem => ?_
  rcases mem_toString_int c hmem with h | h
  · exact hminus h
  · rw [h] at hdigit
    cases hdigit

theorem reads_nat {stop : String} {c : Char} {cs : List Char} (n : ℕ) (hstop : stop.toList = c :: cs)
    (hdigit : c.isDigit = false) :
    Reads (before stop digits?) ((toString n).toList ++ stop.toList) n := by
  rw [toList_toString_nat]
  exact .before (digits?_toDigits n) hstop (not_mem_of_isDigit isDigit_of_mem_toDigits hdigit)

theorem reads_size {front back : String} {c : Char} {cs : List Char} (size : ℕ)
    (hback : back.toList = c :: cs) (hdigit : c.isDigit = false) :
    Reads (between front back digits?) (front.toList ++ (toString size).toList ++ back.toList)
      size := by
  rw [List.append_assoc]
  exact .bind (.expect front) (reads_nat size hback hdigit)

theorem reads_header (hlow : -2 ^ 31 ≤ scale) (hhigh : scale < 2 ^ 31) (size : ℕ) :
    ReadsLines header ((headerLines scale size).map (·.toList)) (scale, size) := by
  simp only [headerLines, List.map_cons, List.map_nil, String.toList_append]
  refine .cons (.line (reads_scale hlow hhigh rfl (by decide) (by decide))) ?_
  refine .cons (.line (.expect "")) ?_
  refine .cons (.line (reads_scale hlow hhigh rfl (by decide) (by decide))) ?_
  refine .cons (.line (.expect "")) ?_
  refine .cons (.line (reads_size size rfl (by decide))) ?_
  refine .cons (.line (reads_size size rfl (by decide))) ?_
  exact .map (.of_guard ⟨rfl, rfl⟩)

/-! ## The entries -/

/-- What the line of an entry says of the threshold at a position. -/
structure Entry.Shows (e : Entry) (size position significand : ℕ) : Prop where
  length_literal : e.literal.length = 13
  isHexDigit : ∀ c ∈ e.literal, (hexDigit? c).isSome = true
  significand_eq : e.significand = significand
  position_eq : e.position = position
  size_eq : e.size = size
  isNearest : e.fraction.toBinary64.IsNearest e.fraction.value
  value_eq : e.fraction.toBinary64.value = 1 + significand / 2 ^ 52

variable {significand : ℕ}

theorem length_hexDigits (h : significand < 2 ^ 52) : (hexDigits significand).length = 13 := by
  have hlength : (Nat.toDigits 16 significand).length ≤ 13 :=
    (Nat.length_toDigits_le_iff (by decide) (by decide)).mpr (h.trans_eq (by decide))
  rw [hexDigits, List.length_append, List.length_replicate]
  omega

/-- The double of an entry. -/
theorem value_fraction (h : significand < 2 ^ 52) :
    let x := Binary64.ofBitsNat (Binary64.exponentBias * 2 ^ 52 ||| significand)
    x.isPositiveFinite = true ∧ x.value = 1 + significand / 2 ^ 52 := by
  have hlow : Binary64.minNormalExponent ≤ 0 := by decide
  have hceil : (⟨0, significand⟩ : Binary64.Normalized).ceil
      = Binary64.ofBitsNat (Binary64.exponentBias * 2 ^ 52 ||| significand) := by
    rw [Binary64.Normalized.ceil, if_pos hlow, Nat.mul_comm Binary64.exponentBias,
      ← Nat.two_pow_add_eq_or_of_lt h, Nat.mul_comm]
    rfl
  obtain ⟨hfinite, hvalue⟩ :=
    Binary64.Normalized.ceil_of_normal (n := ⟨0, significand⟩) h hlow (by decide : (0 : ℤ) ≤ 1023)
  rw [hceil] at hfinite hvalue
  refine ⟨hfinite, hvalue.trans ?_⟩
  rw [Binary64.Normalized.value, zpow_zero, one_mul]

/-- The line in the pieces that it is read in. -/
theorem entryLine_eq (size position significand : ℕ) :
    entryLine size position significand ++ "\n".toList =
      "    0x".toList ++ ((hexDigits significand ++ ", // 2^(".toList) ++
        (((toString position).toList ++ "/".toList) ++
          (((toString size).toList ++ ") == ".toList) ++
            (fractionText significand ++ "\n".toList)))) := by
  have htext : ∀ s : String, toString s = s := fun _ => rfl
  unfold entryLine
  simp only [htext, String.toList_append, List.append_assoc]

/-- **The line of an entry is read as what it was printed from.** -/
theorem reads_entry (size position : ℕ) (h : significand < 2 ^ 52) :
    ∃ e, Reads entry (entryLine size position significand ++ ['\n']) e ∧
      e.Shows size position significand := by
  obtain ⟨hfinite, hvalue⟩ := value_fraction h
  obtain ⟨f, hfraction, hround, hnearest⟩ := decimal?_positional_double hfinite
  have hhex : hexNumber? (hexDigits significand) = some significand := by
    rw [hexDigits, hexNumber?_zeros, hexNumber?_toDigits]
  have hliteral : literal? (hexDigits significand) = some (hexDigits significand, significand) := by
    rw [literal?, hhex]
    rfl
  have hcomma : ',' ∉ hexDigits significand := fun hmem => by
    have := isSome_of_hexNumber? hhex _ hmem
    exact absurd this (by decide)
  have hnewline : '\n' ∉ fractionText significand := fun hmem => by
    rcases mem_of_decimal? hfraction _ hmem with hpoint | hdigit
    · exact absurd hpoint (by decide)
    · exact absurd hdigit (by decide)
  refine ⟨⟨hexDigits significand, significand, position, size, f⟩, ?_, ?_⟩
  · rw [show ['\n'] = "\n".toList from rfl, entryLine_eq]
    refine .bind (.expect _) (.bind (.before hliteral rfl hcomma) ?_)
    refine .bind (reads_nat position rfl (by decide)) (.bind (reads_nat size rfl (by decide)) ?_)
    exact .map (.before hfraction rfl hnewline)
  · exact {
      length_literal := length_hexDigits h
      isHexDigit := isSome_of_hexNumber? hhex
      significand_eq := rfl
      position_eq := rfl
      size_eq := rfl
      isNearest := hround ▸ hnearest
      value_eq := hround ▸ hvalue }

/-- The lines are read one after the other, each with its own position. -/
theorem reads_entries (size : ℕ) {thresholds : List ℕ} (h : ∀ t ∈ thresholds, t < 2 ^ 52) :
    ∀ start, ∃ es, List.Forall₂ (fun l e => Reads entry (l ++ ['\n']) e)
        ((thresholds.zipIdx start).map fun (significand, position) =>
          entryLine size position significand) es ∧
      List.Forall₂ (fun e (p : ℕ × ℕ) => e.Shows size p.2 p.1) es (thresholds.zipIdx start) := by
  induction thresholds with
  | nil => exact fun _ => ⟨[], .nil, .nil⟩
  | cons t thresholds ih =>
    intro start
    obtain ⟨e, hread, hshows⟩ := reads_entry size start (h t (.head _))
    obtain ⟨es, hreads, hshow⟩ := ih (fun u hu => h u (.tail _ hu)) (start + 1)
    exact ⟨e :: es, .cons hread hreads, .cons hshows hshow⟩

/-! ## The whole text -/

/-- A scale of 32 bits, and thresholds of 52 bits. -/
structure Printable (scale : ℤ) (thresholds : List ℕ) : Prop where
  le_scale : -2 ^ 31 ≤ scale
  scale_lt : scale < 2 ^ 31
  threshold_lt : ∀ t ∈ thresholds, t < 2 ^ 52

variable {thresholds : List ℕ}

/-- **The text of a table is read**, and every line as what it was printed from. -/
theorem read?_render (h : Printable scale thresholds) :
    ∃ es, Listing.read? (render scale thresholds) = some ⟨scale, thresholds.length, es⟩ ∧
      List.Forall₂ (fun e (p : ℕ × ℕ) => e.Shows thresholds.length p.2 p.1) es
        thresholds.zipIdx := by
  obtain ⟨es, hentries, hshows⟩ := reads_entries thresholds.length h.threshold_lt 0
  have hmany := ReadsLines.many hentries
  rw [List.length_map, List.length_zipIdx] at hmany
  have hlisting : ReadsLines listing (lines scale thresholds) ⟨scale, thresholds.length, es⟩ := by
    unfold lines
    rw [List.append_assoc]
    refine .bind (reads_header h.le_scale h.scale_lt _) (.bind hmany ?_)
    exact .cons (.line (.expect "];")) (.pure _)
  refine ⟨es, ?_, hshows⟩
  have hrun := hlisting []
  rw [List.append_nil] at hrun
  unfold Listing.read? render
  rw [hrun]
  rfl

section

variable {es : List Entry} {ps : List (ℕ × ℕ)}

theorem map_significand_eq (h : List.Forall₂ (fun e (p : ℕ × ℕ) => e.Shows size p.2 p.1) es ps) :
    es.map (·.significand) = ps.map Prod.fst := by
  induction h with
  | nil => rfl
  | cons hshows _ ih => rw [List.map_cons, List.map_cons, hshows.significand_eq, ih]

theorem exists_entry
    (h : List.Forall₂ (fun e (p : ℕ × ℕ) => e.Shows size p.2 p.1) es thresholds.zipIdx) {k : ℕ}
    (hk : k < thresholds.length) : ∃ e, es[k]? = some e ∧ e.Shows size k thresholds[k] := by
  have hlength : k < thresholds.zipIdx.length := by rwa [List.length_zipIdx]
  have hlength' : k < es.length := by rwa [h.length_eq]
  have hshows := h.get hlength' hlength
  simp only [List.get_eq_getElem, List.getElem_zipIdx, Nat.zero_add] at hshows
  exact ⟨es[k], List.getElem?_eq_getElem hlength', hshows⟩

end

/-- **The printed table is the table.** Reading it gives back the scale, the length and the
thresholds in their order; no other table is printed like it. Every literal has thirteen hexadecimal
digits, the comment behind it names its position and the length, and the decimal number at the end
of the line is nearest to the double of the threshold. -/
theorem render_readable (h : Printable scale thresholds) :
    (∃ l, Listing.read? (render scale thresholds) = some l ∧ l.scale = scale ∧
      l.size = thresholds.length ∧ l.thresholds = thresholds ∧
      ∀ k (hk : k < thresholds.length), ∃ e, l.entries[k]? = some e ∧
        e.Shows thresholds.length k thresholds[k]) ∧
    ∀ scale' thresholds', Printable scale' thresholds' →
      render scale' thresholds' = render scale thresholds →
        scale' = scale ∧ thresholds' = thresholds := by
  obtain ⟨es, hread, hshows⟩ := read?_render h
  have hthresholds : es.map (·.significand) = thresholds :=
    (map_significand_eq hshows).trans (List.zipIdx_map_fst 0 thresholds)
  refine ⟨⟨_, hread, rfl, rfl, hthresholds, fun k hk => exists_entry hshows hk⟩, ?_⟩
  intro scale' thresholds' h' heq
  obtain ⟨es', hread', hshows'⟩ := read?_render h'
  rw [heq, hread] at hread'
  obtain ⟨rfl, -, rfl⟩ := Listing.mk.inj (Option.some.inj hread')
  refine ⟨rfl, ?_⟩
  rw [← hthresholds]
  exact ((map_significand_eq hshows').trans (List.zipIdx_map_fst 0 thresholds')).symm

/-- The table of four buckets for each power of two. -/
theorem render_readable_four :
    let thresholds := [0, 0x306fe0a31b716, 0x6a09e667f3bcd, 0xae89f995ad3ae]
    Printable 2 thresholds ∧
      ∃ l, Listing.read? (render 2 thresholds) = some l ∧ l.thresholds = thresholds := by
  have h : Printable 2 [0, 0x306fe0a31b716, 0x6a09e667f3bcd, 0xae89f995ad3ae] :=
    ⟨by decide, by decide, by decide⟩
  obtain ⟨⟨l, hread, -, -, hthresholds, -⟩, -⟩ := render_readable h
  exact ⟨h, l, hread, hthresholds⟩

end ExponentialHistogram.Generator
