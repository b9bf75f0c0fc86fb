/-
Configuration values (`slicer-ir`: `slice_ir.rs`, `resolved_config.rs`).

Floating point is a parameter. `Floats F` lists the operations the
configuration code performs on `f64`; an `f32` is represented by the `f64` it
widens to, so narrowing is a function on `F`. Equality of `F` is equality of
bits, which is how `ConfigValue` compares its floats; `eq` is the IEEE `==`.
Rust's `Debug` rendering of text and floats is part of the same parameter.
-/

import PinchNPrint.Lib.Collections
import PinchNPrint.Lib.Text

namespace PinchNPrint.Config

abbrev ConfigKey := String

abbrev ObjectId := String

abbrev ModifierId := String

/-- The host's floating point, as far as configuration uses it. -/
class Floats (F : Type) where
  le : F → F → Bool
  lt : F → F → Bool
  eq : F → F → Bool
  /-- `f64::total_cmp`. -/
  totalCmp : F → F → Ordering
  max : F → F → F
  min : F → F → F
  mul : F → F → F
  div : F → F → F
  fract : F → F
  isFinite : F → Bool
  /-- The literal `digits / 10 ^ decimals` as an `f64`. -/
  literal : Int → Nat → F
  /-- The same literal as an `f32`. -/
  literal32 : Int → Nat → F
  nan : F
  /-- `i64 as f64`. -/
  ofInt : Int → F
  /-- `i64 as f32`. -/
  ofInt32 : Int → F
  /-- `f64 as i64`, saturating. -/
  toInt : F → Int
  /-- `f64 as f32`. -/
  narrow : F → F
  /-- `str::parse::<f64>`. -/
  parse : String → Option F
  /-- `str::parse::<f32>`. -/
  parse32 : String → Option F
  /-- `f64::to_string`. -/
  display : F → String
  /-- `f64` under `{:?}`. -/
  debug : F → String
  /-- `str` under `{:?}`. -/
  debugText : String → String

/-- A decimal numeral: an optional sign, digits, and optionally a point followed
by digits. -/
def parseDecimal (text : String) : Option ℚ :=
  let (sign, digits) : ℚ × List Char := match text.toList with
    | '-' :: rest => (-1, rest)
    | '+' :: rest => (1, rest)
    | rest => (1, rest)
  match digits.span (· != '.') with
  | (whole, []) => (Text.parseDigits whole).map fun n => sign * n
  | (whole, _ :: decimals) =>
      (Text.parseDigits (whole ++ decimals)).map fun n => sign * n / 10 ^ decimals.length

/-- Exact arithmetic: the reading of floats in which every value is a rational,
nothing rounds and nothing overflows. Numerals are plain decimals. -/
instance : Floats ℚ where
  le a b := decide (a ≤ b)
  lt a b := decide (a < b)
  eq a b := decide (a = b)
  totalCmp a b := compare a b
  max a b := if a ≤ b then b else a
  min a b := if a ≤ b then a else b
  mul a b := a * b
  div a b := a / b
  fract a := a - (a.num.tdiv a.den : ℤ)
  isFinite _ := true
  literal n decimals := n / 10 ^ decimals
  literal32 n decimals := n / 10 ^ decimals
  nan := 0
  ofInt n := n
  ofInt32 n := n
  toInt a := a.num.tdiv a.den
  narrow a := a
  parse := parseDecimal
  parse32 := parseDecimal
  display a := toString a
  debug a := toString a
  debugText text := text.quote

inductive ConfigValue (F : Type) where
  | bool (value : Bool)
  | int (value : Int)
  | float (value : F)
  | string (value : String)
  | list (items : List (ConfigValue F))
  | percent (value : F)
  | floatOrPercent (value : F) (isPercent : Bool)
deriving Repr

namespace ConfigValue

variable {F : Type}

mutual

/-- `PartialEq for ConfigValue`: same variant, same bits. -/
def decEq [DecidableEq F] : (left right : ConfigValue F) → Decidable (left = right)
  | .bool a, .bool b => decidable_of_iff (a = b) (by simp)
  | .int a, .int b => decidable_of_iff (a = b) (by simp)
  | .float a, .float b => decidable_of_iff (a = b) (by simp)
  | .string a, .string b => decidable_of_iff (a = b) (by simp)
  | .list a, .list b =>
      match decEqItems a b with
      | .isTrue h => .isTrue (by rw [h])
      | .isFalse h => .isFalse (by simpa using h)
  | .percent a, .percent b => decidable_of_iff (a = b) (by simp)
  | .floatOrPercent a p, .floatOrPercent b q => decidable_of_iff (a = b ∧ p = q) (by simp)
  | .bool _, .int _ | .bool _, .float _ | .bool _, .string _ | .bool _, .list _
  | .bool _, .percent _ | .bool _, .floatOrPercent _ _ => .isFalse (by simp)
  | .int _, .bool _ | .int _, .float _ | .int _, .string _ | .int _, .list _
  | .int _, .percent _ | .int _, .floatOrPercent _ _ => .isFalse (by simp)
  | .float _, .bool _ | .float _, .int _ | .float _, .string _ | .float _, .list _
  | .float _, .percent _ | .float _, .floatOrPercent _ _ => .isFalse (by simp)
  | .string _, .bool _ | .string _, .int _ | .string _, .float _ | .string _, .list _
  | .string _, .percent _ | .string _, .floatOrPercent _ _ => .isFalse (by simp)
  | .list _, .bool _ | .list _, .int _ | .list _, .float _ | .list _, .string _
  | .list _, .percent _ | .list _, .floatOrPercent _ _ => .isFalse (by simp)
  | .percent _, .bool _ | .percent _, .int _ | .percent _, .float _ | .percent _, .string _
  | .percent _, .list _ | .percent _, .floatOrPercent _ _ => .isFalse (by simp)
  | .floatOrPercent _ _, .bool _ | .floatOrPercent _ _, .int _ | .floatOrPercent _ _, .float _
  | .floatOrPercent _ _, .string _ | .floatOrPercent _ _, .list _
  | .floatOrPercent _ _, .percent _ => .isFalse (by simp)

/-- Equality of list items, position by position. -/
def decEqItems [DecidableEq F] : (left right : List (ConfigValue F)) → Decidable (left = right)
  | [], [] => .isTrue rfl
  | [], _ :: _ => .isFalse (by simp)
  | _ :: _, [] => .isFalse (by simp)
  | a :: as, b :: bs =>
      match decEq a b, decEqItems as bs with
      | .isTrue h, .isTrue h' => .isTrue (by rw [h, h'])
      | .isFalse h, _ => .isFalse (fun heq => h (List.cons.inj heq).1)
      | .isTrue _, .isFalse h' => .isFalse (fun heq => h' (List.cons.inj heq).2)

end

instance [DecidableEq F] : DecidableEq (ConfigValue F) :=
  decEq

/-- `variant_name` and `config_value_name`. -/
def variantName : ConfigValue F → String
  | .bool _ => "Bool"
  | .int _ => "Int"
  | .float _ => "Float"
  | .string _ => "String"
  | .list _ => "List"
  | .percent _ => "Percent"
  | .floatOrPercent _ _ => "FloatOrPercent"

variable [Floats F]

mutual

/-- A value under `{:?}`. -/
def debug : ConfigValue F → String
  | .bool value => s!"Bool({value})"
  | .int value => s!"Int({value})"
  | .float value => s!"Float({Floats.debug value})"
  | .string value => s!"String({Floats.debugText F value})"
  | .list items => s!"List({debugItems items})"
  | .percent value => s!"Percent({Floats.debug value})"
  | .floatOrPercent value isPercent =>
      "FloatOrPercent \x7b value: " ++ Floats.debug value ++ ", is_percent: " ++
        toString isPercent ++ " \x7d"

/-- A list of values under `{:?}`. -/
def debugItems : List (ConfigValue F) → String
  | [] => "[]"
  | item :: rest => "[" ++ debug item ++ debugRest rest

/-- The items after the first one, and the closing bracket. -/
def debugRest : List (ConfigValue F) → String
  | [] => "]"
  | item :: rest => ", " ++ debug item ++ debugRest rest

end

end ConfigValue

/-- `ConfigResolutionError`. The variant about support layer heights is raised
by the scheduler, not by the functions modelled here. -/
inductive ConfigResolutionError (F : Type) where
  | typeMismatch (key expected actual : String)
  | outOfRange (key : String) (value : F) (min max : Option F) (index : Option Nat)
deriving DecidableEq

/-- The spellings `cli_bool_spelling` knows. -/
def SPELLINGS : List (String × Bool) :=
  [("1", true), ("true", true), ("yes", true), ("on", true), ("enabled", true),
    ("0", false), ("false", false), ("no", false), ("off", false), ("disabled", false)]

def cliBoolSpelling (value : String) : Option Bool :=
  let trimmed := Text.trim value
  SPELLINGS.findSome? fun (spelling, result) =>
    if Text.eqIgnoreAsciiCase trimmed spelling then some result else none

end PinchNPrint.Config
