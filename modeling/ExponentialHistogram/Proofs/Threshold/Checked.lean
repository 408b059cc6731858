/-
ExponentialHistogram.Proofs.Threshold.Checked — every word is wide enough.

The comparison of powers, written once more with operations that fail where
the result does not fit: words have 128 bits, exponents and targets are signed
numbers of 64 bits. Three results are meant to wrap and stay as they are, the
lower word of a square and the two that drop the bits a neighbour has taken
over.

The operations on words never fail, whatever the word (`squareWords?_eq`).
Exponents could, but a squaring does little more than double them
(`Small.squareDown`), and twenty doublings do not leave 64 bits. So the
comparison with checks is the one without (`attains?_eq_some`).
-/
import Mathlib
import ExponentialHistogram.Proofs.Threshold.Search

namespace ExponentialHistogram.Threshold

namespace Checked

/-! ## Operations that can fail -/

def add? {width : Nat} (x y : BitVec width) : Option (BitVec width) :=
  if x.uaddOverflow y then none else some (x + y)

def mul? {width : Nat} (x y : BitVec width) : Option (BitVec width) :=
  if x.umulOverflow y then none else some (x * y)

/-- A shift to the left by which no set bit is lost. -/
def shiftLeft? {width : Nat} (x : BitVec width) (count : Nat) : Option (BitVec width) :=
  if x.toNat * 2 ^ count < 2 ^ width then some (x <<< count) else none

/-- A signed number of 64 bits. -/
def int64? (n : Int) : Option Int := if -2 ^ 63 ≤ n ∧ n < 2 ^ 63 then some n else none

variable {width : Nat}

/-- An operation that does not fail can be passed over. -/
theorem bind_eq_of_eq_some {α β : Type} {x : Option α} {a : α} (h : x = some a)
    (f : α → Option β) : (x >>= f) = f a := by
  rw [h]
  rfl

theorem add?_eq_some {x y : BitVec width} (h : x.toNat + y.toNat < 2 ^ width) :
    add? x y = some (x + y) := by
  rw [add?, BitVec.uaddOverflow, decide_eq_false (Nat.not_le.mpr h)]
  rfl

theorem mul?_eq_some {x y : BitVec width} (h : x.toNat * y.toNat < 2 ^ width) :
    mul? x y = some (x * y) := by
  rw [mul?, BitVec.umulOverflow, decide_eq_false (Nat.not_le.mpr h)]
  rfl

theorem shiftLeft?_eq_some {x : BitVec width} {count : Nat} (h : x.toNat * 2 ^ count < 2 ^ width) :
    shiftLeft? x count = some (x <<< count) :=
  if_pos h

theorem int64?_eq_some {n : Int} (hlow : -2 ^ 63 ≤ n) (hhigh : n < 2 ^ 63) : int64? n = some n :=
  if_pos ⟨hlow, hhigh⟩

/-! ## The comparison with checks -/

/-- The words of a square. The lower one wraps around, which the carry accounts for. -/
def squareWords? (v : BitVec 128) : Option (BitVec 128 × BitVec 128) := do
  let high := v >>> 64
  let low := v &&& 0xFFFFFFFFFFFFFFFF#128
  let cross ← mul? high low
  let lowSquare ← mul? low low
  let lowWord := lowSquare + cross <<< 65
  let carry := if lowWord < lowSquare then 1#128 else 0#128
  let highSquare ← mul? high high
  let withCross ← add? highSquare (cross >>> 63)
  let highWord ← add? withCross carry
  return (highWord, lowWord)

def ofNat? (n : Nat) : Option WideFloat := do
  let shift := 128 - bitLength n
  let significand ← shiftLeft? (BitVec.ofNat 128 n) shift
  let exponent ← int64? (-shift)
  return ⟨significand, exponent⟩

/-- The next larger number. Here the failing addition is what tells a carry. -/
def next? (w : WideFloat) : Option WideFloat :=
  match add? w.significand 1 with
  | some significand => some ⟨significand, w.exponent⟩
  | none => do
    let exponent ← int64? (w.exponent + 1)
    return ⟨1#128 <<< 127, exponent⟩

/-- The kept and the dropped bits of a square. The top bit that the lower word loses stands in the
higher one. -/
def splitSquare? (w : WideFloat) : Option (WideFloat × BitVec 128) := do
  let (high, low) ← squareWords? w.significand
  let doubled ← int64? (2 * w.exponent)
  if high.msb then
    let exponent ← int64? (doubled + 128)
    return (⟨high, exponent⟩, low)
  else
    let shifted ← shiftLeft? high 1
    let exponent ← int64? (doubled + 127)
    return (⟨shifted ||| low >>> 127, exponent⟩, low <<< 1)

def squareDown? (w : WideFloat) : Option WideFloat := do
  let (kept, _) ← splitSquare? w
  return kept

def squareUp? (w : WideFloat) : Option WideFloat := do
  let (kept, dropped) ← splitSquare? w
  if dropped = 0 then return kept else next? kept

def squareTimes? : Nat → Enclosure → Option Enclosure
  | 0, e => some e
  | n + 1, e => do
    let lower ← squareDown? e.lower
    let upper ← squareUp? e.upper
    squareTimes? n ⟨lower, upper⟩

/-- The verdict of a comparison, unless something does not fit on the way. -/
def attains? (candidate scale position : Nat) : Option (Option Bool) := do
  let whole ← int64? (52 * 2 ^ scale)
  let offset ← int64? position
  let goal ← int64? (whole + offset)
  let start ← ofNat? candidate
  let power ← squareTimes? scale (.exact start)
  let lowerBound ← int64? (power.lower.exponent + 127)
  let upperBound ← int64? (power.upper.exponent + 128)
  return if goal ≤ lowerBound then some true
    else if upperBound ≤ goal then some false
    else none

/-! ## Words -/

/-- **The words of a square are formed without loss**, for every word. -/
theorem squareWords?_eq (v : BitVec 128) : squareWords? v = some (squareWords v) := by
  obtain ⟨hcross, hlowSquare, hhighSquare, hword, -, -⟩ := nothingLost v
  have hwithCross : (highHalf v * highHalf v).toNat + (crossProduct v >>> 63).toNat < 2 ^ 128 := by
    rw [BitVec.toNat_mul_of_lt hhighSquare]
    omega
  have hwithCarry : (highHalf v * highHalf v + crossProduct v >>> 63).toNat + (carry v).toNat
      < 2 ^ 128 := by
    rwa [withCross_toNat]
  unfold squareWords?
  refine (bind_eq_of_eq_some (mul?_eq_some hcross) _).trans ?_
  refine (bind_eq_of_eq_some (mul?_eq_some hlowSquare) _).trans ?_
  refine (bind_eq_of_eq_some (mul?_eq_some hhighSquare) _).trans ?_
  refine (bind_eq_of_eq_some (add?_eq_some hwithCross) _).trans ?_
  exact bind_eq_of_eq_some (add?_eq_some hwithCarry) _

/-! ## Exponents -/

/-- The exponent and the 129 that a squaring adds to its double at most stay within this many
bits. -/
def Small (bits : Nat) (w : WideFloat) : Prop := w.exponent.natAbs + 129 ≤ 2 ^ bits

variable {bits : Nat} {w : WideFloat}

/-- Twice the exponent fits, and so does what a squaring adds to it at most. -/
structure Fits (w : WideFloat) : Prop where
  low : -2 ^ 63 ≤ 2 * w.exponent
  high : 2 * w.exponent + 129 < 2 ^ 63

theorem Small.fits (h : Small bits w) (hbits : bits ≤ 60) : Fits w := by
  have hbound : 2 ^ bits ≤ 2 ^ 60 := Nat.pow_le_pow_right (by decide) hbits
  unfold Small at h
  exact ⟨by omega, by omega⟩

theorem Small.int64?_eq (h : Small bits w) (hbits : bits ≤ 60) :
    ∀ n, n.natAbs ≤ 2 * w.exponent.natAbs + 258 → int64? n = some n := by
  intro n hn
  have hbound : 2 ^ bits ≤ 2 ^ 60 := Nat.pow_le_pow_right (by decide) hbits
  unfold Small at h
  exact int64?_eq_some (by omega) (by omega)

theorem splitSquare_exponent (w : WideFloat) :
    w.splitSquare.1.exponent = 2 * w.exponent + 128 ∨
      w.splitSquare.1.exponent = 2 * w.exponent + 127 := by
  unfold WideFloat.splitSquare
  split
  split
  · exact Or.inl rfl
  · exact Or.inr rfl

/-- A squaring costs one bit. -/
theorem Small.squareDown (h : Small bits w) : Small (bits + 1) w.squareDown := by
  unfold Small WideFloat.squareDown at *
  have := splitSquare_exponent w
  omega

theorem next_exponent (w : WideFloat) :
    w.next.exponent = w.exponent ∨ w.next.exponent = w.exponent + 1 := by
  unfold WideFloat.next
  split
  · exact Or.inr rfl
  · exact Or.inl rfl

theorem Small.squareUp (h : Small bits w) : Small (bits + 1) w.squareUp := by
  unfold Small at *
  have hsplit := splitSquare_exponent w
  have hnext := next_exponent w.squareDown
  rw [WideFloat.squareUp_eq]
  unfold WideFloat.squareDown at *
  split
  · omega
  · omega

theorem splitSquare?_eq (h : Fits w) : splitSquare? w = some w.splitSquare := by
  obtain ⟨hlow, hhigh⟩ := h
  unfold splitSquare? WideFloat.splitSquare
  rw [bind_eq_of_eq_some (squareWords?_eq _)]
  obtain ⟨high, low⟩ := squareWords w.significand
  simp only
  rw [bind_eq_of_eq_some (int64?_eq_some hlow (by omega))]
  split
  · rw [bind_eq_of_eq_some (int64?_eq_some (by omega) (by omega))]
    rfl
  · rename_i hmsb
    have htop : high.toNat * 2 ^ 1 < 2 ^ 128 := by
      rw [BitVec.msb_eq_decide, decide_eq_true_iff] at hmsb
      omega
    rw [bind_eq_of_eq_some (shiftLeft?_eq_some htop),
      bind_eq_of_eq_some (int64?_eq_some (by omega) (by omega))]
    rfl

theorem next?_eq (hlow : -2 ^ 63 ≤ w.exponent) (hhigh : w.exponent + 1 < 2 ^ 63) :
    next? w = some w.next := by
  have hmax : (BitVec.allOnes 128).toNat = 2 ^ 128 - 1 := by decide
  unfold next? WideFloat.next
  by_cases hones : w.significand = BitVec.allOnes 128
  · have hfails : add? w.significand 1 = none := by
      rw [add?, hones]
      rfl
    rw [hfails, if_pos hones]
    simp only
    rw [bind_eq_of_eq_some (int64?_eq_some (by omega) hhigh)]
    rfl
  · have hne : w.significand.toNat ≠ (BitVec.allOnes 128).toNat :=
      fun heq => hones (BitVec.eq_of_toNat_eq heq)
    have hlt := w.significand.isLt
    have hroom : w.significand.toNat + (1 : BitVec 128).toNat < 2 ^ 128 := by
      rw [show (1 : BitVec 128).toNat = 1 from rfl]
      omega
    rw [add?_eq_some hroom, if_neg hones]

theorem squareDown?_eq (h : Fits w) : squareDown? w = some w.squareDown := by
  rw [squareDown?, bind_eq_of_eq_some (splitSquare?_eq h)]
  rfl

theorem squareUp?_eq (h : Fits w) : squareUp? w = some w.squareUp := by
  rw [squareUp?, bind_eq_of_eq_some (splitSquare?_eq h), WideFloat.squareUp_eq]
  simp only
  split
  · rfl
  · obtain ⟨hlow, hhigh⟩ := h
    have hexponent := splitSquare_exponent w
    exact next?_eq (by omega) (by omega)

/-! ## Squarings and the comparison -/

/-- Squarings without loss, and the bits of the exponents they end with. -/
theorem squareTimes?_eq {n : Nat} {e : Enclosure} (hlower : Small bits e.lower)
    (hupper : Small bits e.upper) (hbits : bits + n ≤ 60) :
    squareTimes? n e = some (Enclosure.squareTimes n e) ∧
      Small (bits + n) (Enclosure.squareTimes n e).lower ∧
      Small (bits + n) (Enclosure.squareTimes n e).upper := by
  induction n generalizing bits e with
  | zero => exact ⟨rfl, hlower, hupper⟩
  | succ n ih =>
    rw [squareTimes?, bind_eq_of_eq_some (squareDown?_eq (hlower.fits (by omega))),
      bind_eq_of_eq_some (squareUp?_eq (hupper.fits (by omega)))]
    have hdown : Small (bits + 1) e.square.lower := hlower.squareDown
    have hup : Small (bits + 1) e.square.upper := hupper.squareUp
    have hrest := ih hdown hup (by omega)
    rwa [Nat.add_right_comm bits 1 n] at hrest

/-- The first number of an enclosure, and the bits of its exponent. -/
theorem ofNat?_eq {n : Nat} (hpos : 0 < n) (hlt : n < 2 ^ 128) :
    ofNat? n = some (.ofNat n) ∧ Small 8 (.ofNat n) := by
  have hlen : 0 < bitLength n := by
    rw [bitLength, if_neg (Nat.pos_iff_ne_zero.mp hpos)]
    exact Nat.succ_pos _
  obtain ⟨hwidth, -, hhigh⟩ := shift_leading_one hpos hlt
  have hword : (BitVec.ofNat 128 n).toNat * 2 ^ (128 - bitLength n) < 2 ^ 128 := by
    rwa [BitVec.toNat_ofNat, Nat.mod_eq_of_lt hlt]
  have hsmall : Small 8 (.ofNat n) := by
    unfold Small WideFloat.ofNat
    simp only
    omega
  refine ⟨?_, hsmall⟩
  unfold ofNat?
  rw [bind_eq_of_eq_some (shiftLeft?_eq_some hword),
    bind_eq_of_eq_some (int64?_eq_some (by omega) (by omega))]
  rfl

/-- **Nothing is lost in a comparison**: with every operation checked the verdict is the same. -/
theorem attains?_eq_some {candidate scale position : Nat} (hpos : 0 < candidate)
    (hlt : candidate < 2 ^ 64) (hscale : scale ≤ 20) (hposition : position < 2 ^ 62) :
    attains? candidate scale position = some (Threshold.attains? candidate scale position) := by
  have hbound := target_lt hscale hposition
  have hsigned := signedTarget_eq hbound
  have hgoal : (52 * 2 ^ scale + position : Int) = signedTarget scale position := by
    rw [hsigned, target]
    push_cast
    rfl
  have hnonneg : (0 : Int) ≤ 52 * 2 ^ scale := by positivity
  have hwhole : int64? (52 * 2 ^ scale) = some (52 * 2 ^ scale) :=
    int64?_eq_some (by omega) (by omega)
  have hoffset : int64? position = some (position : Int) := int64?_eq_some (by omega) (by omega)
  have htarget : int64? (signedTarget scale position) = some (signedTarget scale position) :=
    int64?_eq_some (by omega) (by omega)
  obtain ⟨hstart, hsmall⟩ := ofNat?_eq hpos (hlt.trans (by decide))
  obtain ⟨hpower, hlower, hupper⟩ :=
    squareTimes?_eq (n := scale) (e := .exact (.ofNat candidate)) hsmall hsmall (by omega)
  unfold attains? Threshold.attains?
  rw [bind_eq_of_eq_some hwhole, bind_eq_of_eq_some hoffset, hgoal, bind_eq_of_eq_some htarget,
    bind_eq_of_eq_some hstart, bind_eq_of_eq_some hpower,
    bind_eq_of_eq_some (hlower.int64?_eq (by omega) _ (by omega)),
    bind_eq_of_eq_some (hupper.int64?_eq (by omega) _ (by omega))]
  rfl

end Checked

/-! ## Verdicts -/

/-- **Comparisons are sound.** A verdict is true of the exact powers, the bounds are normalized and
enclose the exact power after every squaring, and no operation on the way loses anything. -/
theorem verdicts_sound {candidate scale position : Nat} (hpos : 0 < candidate)
    (hlt : candidate < 2 ^ 64) (hscale : scale ≤ 20) (hposition : position < 2 ^ 62) :
    (attains? candidate scale position = some true →
      2 ^ (52 * 2 ^ scale + position) ≤ candidate ^ 2 ^ scale) ∧
    (attains? candidate scale position = some false →
      candidate ^ 2 ^ scale < 2 ^ (52 * 2 ^ scale + position)) ∧
    (∀ n, n ≤ scale → (Enclosure.squareTimes n (.exact (.ofNat candidate))).Encloses
      ((candidate : ℚ) ^ 2 ^ n)) ∧
    Checked.attains? candidate scale position = some (attains? candidate scale position) := by
  have hbound := target_lt hscale hposition
  refine ⟨?_, ?_, ?_, Checked.attains?_eq_some hpos hlt hscale hposition⟩
  · intro h
    exact (attains?_sound hpos hlt hbound h).mp rfl
  · intro h
    exact Nat.not_le.mp (mt (attains?_sound hpos hlt hbound h).mpr Bool.false_ne_true)
  · intro n _
    exact encloses_power hpos hlt n

/-- The threshold of a position of scale 12, and its predecessor. -/
theorem verdicts_sound_neighbours :
    (0 < 0x13460b1b9fd712 ∧ 0x13460b1b9fd712 < 2 ^ 64 ∧ 12 ≤ 20 ∧ 1100 < 2 ^ 62) ∧
    2 ^ (52 * 2 ^ 12 + 1100) ≤ 0x13460b1b9fd712 ^ 2 ^ 12 ∧
    0x13460b1b9fd711 ^ 2 ^ 12 < 2 ^ (52 * 2 ^ 12 + 1100) ∧
    Checked.attains? 0x13460b1b9fd711 12 1100 = some (some false) := by
  have hreached : attains? 0x13460b1b9fd712 12 1100 = some true := by decide +kernel
  have hmissed : attains? 0x13460b1b9fd711 12 1100 = some false := by decide +kernel
  have hthreshold := @verdicts_sound 0x13460b1b9fd712 12 1100 (by decide) (by decide) (by decide)
    (by decide)
  have hpred := @verdicts_sound 0x13460b1b9fd711 12 1100 (by decide) (by decide) (by decide)
    (by decide)
  refine ⟨by decide, hthreshold.1 hreached, hpred.2.1 hmissed, ?_⟩
  rw [hpred.2.2.2, hmissed]

end ExponentialHistogram.Threshold
