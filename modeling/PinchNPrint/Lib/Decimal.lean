/-
Decimal notation over an ordered field with floor.

`parse` reads the decimal grammar of `f64::from_str`; the words for infinity
and not-a-number name no element of an ordered field and are rejected.
`roundAway` rounds as `f64::round` does.
-/

import Mathlib.Data.List.DropRight
import Mathlib.Data.Rat.Floor
import Mathlib.Tactic.Positivity
import PinchNPrint.Lib.Numerals
import PinchNPrint.Lib.Text

namespace Decimal

section Rounding

variable {F : Type} [Field F] [LinearOrder F] [FloorRing F]

/-- The nearest integer, ties away from zero: `f64::round`. -/
def roundAway (x : F) : ℤ :=
  if 0 ≤ x then ⌊x + 1 / 2⌋ else ⌈x - 1 / 2⌉

section Order

variable [IsStrictOrderedRing F]

theorem roundAway_mono {x y : F} (h : x ≤ y) : roundAway x ≤ roundAway y := by
  rw [roundAway, roundAway]
  by_cases hx : 0 ≤ x
  case pos =>
    rw [if_pos hx, if_pos (hx.trans h)]
    exact Int.floor_mono (by linarith)
  case neg =>
    rw [if_neg hx]
    by_cases hy : 0 ≤ y
    · rw [if_pos hy]
      have hceil : ⌈x - 1 / 2⌉ ≤ 0 := Int.ceil_le.mpr (by push_cast; linarith)
      have hfloor : (0 : ℤ) ≤ ⌊y + 1 / 2⌋ := Int.le_floor.mpr (by push_cast; linarith)
      exact hceil.trans hfloor
    · rw [if_neg hy]
      exact Int.ceil_mono (by linarith)

@[simp] theorem roundAway_intCast (n : ℤ) : roundAway (n : F) = n := by
  rw [roundAway]
  split
  · rw [Int.floor_eq_iff]
    constructor <;> linarith
  · rw [Int.ceil_eq_iff]
    constructor <;> linarith

end Order

end Rounding

/-! ### Parsing -/

/-- Digits with an optional point: their number and how many follow the point. -/
def mantissa (text : List Char) : Option (Nat × Nat) :=
  match text.span (· != '.') with
  | (whole, []) => (Text.parseDigits whole).map fun n => (n, 0)
  | (whole, _ :: decimals) =>
      (Text.parseDigits (whole ++ decimals)).map fun n => (n, decimals.length)

/-- A signed integer exponent. -/
def exponent : List Char → Option ℤ
  | '-' :: digits => (Text.parseDigits digits).map fun n => -(n : ℤ)
  | '+' :: digits => (Text.parseDigits digits).map fun n => (n : ℤ)
  | digits => (Text.parseDigits digits).map fun n => (n : ℤ)

def isExponentMark (c : Char) : Bool :=
  c == 'e' || c == 'E'

variable {F : Type} [Field F]

/-- An unsigned number. -/
def magnitude (text : List Char) : Option F :=
  match text.span (!isExponentMark ·) with
  | (number, []) => (mantissa number).map fun m => m.1 / 10 ^ m.2
  | (number, _ :: power) => do
      let m ← mantissa number
      let k ← exponent power
      some (m.1 / 10 ^ m.2 * 10 ^ k)

/-- `str::parse::<f64>` on the finite numbers. -/
def parse (text : String) : Option F :=
  match text.toList with
  | '-' :: rest => (magnitude rest).map fun x => -x
  | '+' :: rest => magnitude rest
  | rest => magnitude rest

example : parse "-1.5e1" = some (-15 : ℚ) := by decide +kernel

end Decimal
