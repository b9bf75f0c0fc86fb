/-
Automatic-value expansion does not depend on the order of the keys.

`Expands` is the recursive definition of an expanded value: a sentinel or a percent
refers to a base, and the base to its own expanded value. `expandKey` computes it
with a memo and a guard against cycles. Where the references of a key stop, the
guard is not met and the value is the recursive one. Where they run into a cycle,
what the guard returns is a percent, a zero or a minus one, which is no base, so
the expansion fails. `expandAutomaticValues_order_free` puts the two together.
-/

import PinchNPrint.Config.Expansion
import PinchNPrint.Lib.Chain
import Mathlib.Algebra.Order.Field.Basic
import Mathlib.Data.Rat.Cast.Order
import PinchNPrint.Lib.Numerals

namespace PinchNPrint.Config

open Std Chain Relation

/-- The numbers are those of an ordered field. -/
structure ReadAsField (F : Type) [Field F] [LinearOrder F] [Floats F] : Prop where
  lt_iff : ∀ a b : F, Floats.lt a b = true ↔ a < b
  eq_iff : ∀ a b : F, Floats.eq a b = true ↔ a = b
  mul : ∀ a b : F, Floats.mul a b = a * b
  div : ∀ a b : F, Floats.div a b = a / b
  isFinite : ∀ a : F, Floats.isFinite a = true
  literal : ∀ (digits : Int) (decimals : Nat),
    (Floats.literal digits decimals : F) = digits / 10 ^ decimals
  ofInt : ∀ n : Int, (Floats.ofInt n : F) = n

variable {F : Type} [Field F] [LinearOrder F] [Floats F]

/-- What the expanded value of a key is made of: the value as it is, the expanded value
of another key, or a number computed from a base. -/
inductive Form (F : Type) where
  | plain
  | copies (baseKey : String)
  | scaled (baseKey : String) (combine : F → ConfigValue F)

namespace ExpansionResolver

variable (resolver : ExpansionResolver F)

/-- The form of a value under a key. -/
def form (key : String) (value : ConfigValue F) : Form F :=
  if key = "line_width" ∧ isPlainZero value = true then
    .scaled "nozzle_diameter" fun nozzle => .float (9 / 8 * nozzle)
  else if key = "support_line_width" ∧ isPlainZero value = true then
    .scaled "nozzle_diameter" .float
  else
    match BOTTOM_AUTO_BASES.find? fun row => row.1 == key && isPlainMinusOne value with
    | some (_, baseKey) => .copies baseKey
    | none =>
        match resolver.relative key value with
        | some (percent, baseKey) =>
            .scaled baseKey fun base => absoluteLike value (percent / 100 * base)
        | none => .plain

/-- The expanded value of a key. A base is the number of the selected tool, or the
number of the base key's expanded value, or the nozzle of the context; it is positive. -/
inductive Expands : String → ConfigValue F → Prop
  | plain {key : String} {value : ConfigValue F} (hsource : resolver.source[key]? = some value)
      (hform : resolver.form key value = .plain) : Expands key value
  | copies {key baseKey : String} {value result : ConfigValue F}
      (hsource : resolver.source[key]? = some value)
      (hform : resolver.form key value = .copies baseKey) (hbase : Expands baseKey result) :
      Expands key result
  | tool {key baseKey : String} {value : ConfigValue F} {combine : F → ConfigValue F} {base : F}
      (hsource : resolver.source[key]? = some value)
      (hform : resolver.form key value = .scaled baseKey combine)
      (htool : resolver.toolBase baseKey = some base) (hpositive : 0 < base) :
      Expands key (combine base)
  | scaled {key baseKey : String} {value result : ConfigValue F} {combine : F → ConfigValue F}
      {base : F} (hsource : resolver.source[key]? = some value)
      (hform : resolver.form key value = .scaled baseKey combine)
      (htool : resolver.toolBase baseKey = none) (hbase : Expands baseKey result)
      (hnumber : baseNumber result = some base) (hpositive : 0 < base) :
      Expands key (combine base)
  | nozzle {key : String} {value : ConfigValue F} {combine : F → ConfigValue F}
      (hsource : resolver.source[key]? = some value)
      (hform : resolver.form key value = .scaled "nozzle_diameter" combine)
      (htool : resolver.toolBase "nozzle_diameter" = none)
      (hmissing : resolver.source["nozzle_diameter"]? = none)
      (hpositive : 0 < resolver.context.nozzleDiameterMm) :
      Expands key (combine resolver.context.nozzleDiameterMm)

/-- The number a base key stands for. -/
def BaseIs (baseKey : String) (base : F) : Prop :=
  0 < base ∧
    match resolver.toolBase baseKey with
    | some value => value = base
    | none =>
        (∃ result, resolver.Expands baseKey result ∧ baseNumber result = some base) ∨
          (baseKey = "nozzle_diameter" ∧ resolver.source["nozzle_diameter"]? = none ∧
            resolver.context.nozzleDiameterMm = base)

variable {resolver}

variable {key baseKey : String} {result value : ConfigValue F} {before expanded : Expanded F}

theorem Expands.source (h : resolver.Expands key result) :
    ∃ value, resolver.source[key]? = some value := by
  cases h with
  | plain hsource | copies hsource | tool hsource | scaled hsource | nozzle hsource =>
      exact ⟨_, hsource⟩

/-- The recursive definition, read off the form of the value. -/
theorem expands_iff {key : String} {value : ConfigValue F}
    (hsource : resolver.source[key]? = some value) {result : ConfigValue F} :
    resolver.Expands key result ↔
      match resolver.form key value with
      | .plain => result = value
      | .copies baseKey => resolver.Expands baseKey result
      | .scaled baseKey combine => ∃ base, resolver.BaseIs baseKey base ∧ result = combine base := by
  constructor
  · intro h
    cases h with
    | plain hsource' hform =>
        rw [hsource] at hsource'
        cases hsource'
        rw [hform]
    | copies hsource' hform hbase =>
        rw [hsource] at hsource'
        cases hsource'
        rw [hform]
        exact hbase
    | tool hsource' hform htool hpositive =>
        rw [hsource] at hsource'
        cases hsource'
        rw [hform]
        exact ⟨_, ⟨hpositive, by rw [htool]⟩, rfl⟩
    | scaled hsource' hform htool hbase hnumber hpositive =>
        rw [hsource] at hsource'
        cases hsource'
        rw [hform]
        exact ⟨_, ⟨hpositive, by rw [htool]; exact .inl ⟨_, hbase, hnumber⟩⟩, rfl⟩
    | nozzle hsource' hform htool hmissing hpositive =>
        rw [hsource] at hsource'
        cases hsource'
        rw [hform]
        exact ⟨_, ⟨hpositive, by rw [htool]; exact .inr ⟨rfl, hmissing, rfl⟩⟩, rfl⟩
  · intro h
    split at h
    · next hform =>
        subst h
        exact .plain hsource hform
    · next hform => exact .copies hsource hform h
    · next baseKey combine hform =>
        obtain ⟨base, ⟨hpositive, hbase⟩, rfl⟩ := h
        split at hbase
        · next htool =>
            subst hbase
            exact .tool hsource hform htool hpositive
        · next htool =>
            obtain ⟨result, hresult, hnumber⟩ | ⟨rfl, hmissing, rfl⟩ := hbase
            · exact .scaled hsource hform htool hresult hnumber hpositive
            · exact .nozzle hsource hform htool hmissing hpositive

theorem Expands.unique {result' : ConfigValue F} (h : resolver.Expands key result)
    (h' : resolver.Expands key result') : result = result' := by
  induction h generalizing result' with
  | plain hsource hform =>
      rw [expands_iff hsource, hform] at h'
      exact h'.symm
  | copies hsource hform _ ih =>
      rw [expands_iff hsource, hform] at h'
      exact ih h'
  | tool hsource hform htool _ =>
      rw [expands_iff hsource, hform] at h'
      obtain ⟨base, ⟨_, hbase⟩, rfl⟩ := h'
      rw [htool] at hbase
      rw [hbase]
  | scaled hsource hform htool hbase hnumber _ ih =>
      rw [expands_iff hsource, hform] at h'
      obtain ⟨base, ⟨_, hbase'⟩, rfl⟩ := h'
      rw [htool] at hbase'
      obtain ⟨other, hother, hnumber'⟩ | ⟨rfl, hmissing, _⟩ := hbase'
      · rw [ih hother, hnumber'] at hnumber
        rw [Option.some.inj hnumber]
      · obtain ⟨value, hvalue⟩ := hbase.source
        rw [hmissing] at hvalue
        cases hvalue
  | nozzle hsource hform htool hmissing _ =>
      rw [expands_iff hsource, hform] at h'
      obtain ⟨base, ⟨_, hbase⟩, rfl⟩ := h'
      rw [htool] at hbase
      obtain ⟨other, hother, _⟩ | ⟨_, _, rfl⟩ := hbase
      · obtain ⟨value, hvalue⟩ := hother.source
        rw [hmissing] at hvalue
        cases hvalue
      · rfl

theorem baseIs_of_expands {baseKey : String} (htool : resolver.toolBase baseKey = none)
    {result : ConfigValue F} (hresult : resolver.Expands baseKey result) {base : F} :
    resolver.BaseIs baseKey base ↔ 0 < base ∧ baseNumber result = some base := by
  unfold BaseIs
  rw [htool]
  refine and_congr_right fun _ => ⟨?_, fun h => .inl ⟨result, hresult, h⟩⟩
  rintro (⟨other, hother, hnumber⟩ | ⟨rfl, hmissing, _⟩)
  · rwa [hresult.unique hother]
  · obtain ⟨value, hvalue⟩ := hresult.source
    rw [hmissing] at hvalue
    cases hvalue

/-- The base of a key without an expanded value: only a missing nozzle has one. -/
theorem baseIs_of_not_expands (htool : resolver.toolBase baseKey = none)
    (hnone : ¬ ∃ result, resolver.Expands baseKey result) {base : F} :
    resolver.BaseIs baseKey base ↔
      0 < base ∧ baseKey = "nozzle_diameter" ∧ resolver.source["nozzle_diameter"]? = none ∧
        resolver.context.nozzleDiameterMm = base := by
  unfold BaseIs
  rw [htool]
  refine and_congr_right fun _ => ⟨?_, .inr⟩
  rintro (⟨result, hresult, _⟩ | h)
  · exact absurd ⟨result, hresult⟩ hnone
  · exact h

/-! ### References -/

variable (resolver) in
/-- The key a key's expansion goes on to. -/
def reference (key : String) : Option String :=
  resolver.source[key]?.bind fun value =>
    match resolver.form key value with
    | .plain => none
    | .copies baseKey => some baseKey
    | .scaled baseKey _ => if (resolver.toolBase baseKey).isSome then none else some baseKey

omit [LinearOrder F] in
theorem reference_eq_none (h : resolver.source[key]? = none) : resolver.reference key = none := by
  rw [reference, h]
  rfl

omit [LinearOrder F] in
theorem mem_keys_of_reference (key baseKey : String) (h : resolver.reference key = some baseKey) :
    key ∈ resolver.source.keys := by
  obtain ⟨value, hvalue, _⟩ := Option.bind_eq_some_iff.mp h
  exact ExtTreeMap.mem_keys.mpr (BTreeMap.mem_iff_getElem?_isSome.mpr ⟨value, hvalue⟩)

/-- A key with an expanded value refers along a chain that stops. -/
theorem Expands.ends (h : resolver.Expands key result) : Ends resolver.reference key := by
  induction h with
  | plain hsource hform => exact .stop (by simp [reference, hsource, hform])
  | copies hsource hform _ ih => exact .step (by simp [reference, hsource, hform]) ih
  | tool hsource hform htool _ => exact .stop (by simp [reference, hsource, hform, htool])
  | scaled hsource hform htool _ _ _ ih =>
      exact .step (by simp [reference, hsource, hform, htool]) ih
  | nozzle hsource hform htool hmissing _ =>
      exact .step (by simp [reference, hsource, hform, htool]) (.stop (reference_eq_none hmissing))

/-! ### The computation, form by form -/

theorem validateBase_eq (hread : ReadAsField F) (key baseKey : String) (value : F) :
    validateBase key baseKey value =
      if 0 < value then .ok value else .error (.nonPositiveBase key baseKey value) := by
  have hzero : (Floats.literal 0 1 : F) = 0 := by
    rw [hread.literal]
    simp
  rw [validateBase, hread.isFinite, Bool.true_and, hzero]
  simp only [hread.lt_iff]

variable (resolver) in
/-- `expandValue` by the form of the value. -/
def expandForm (expand : String → Expanded F →
      Except (ExpansionError F) (Option (ConfigValue F) × Expanded F))
    (key : String) (value : ConfigValue F) (expanded : Expanded F) :
    Except (ExpansionError F) (ConfigValue F × Expanded F) :=
  match resolver.form key value with
  | .plain => .ok (value, expanded)
  | .copies baseKey => do
      let (found, expanded) ← expand baseKey expanded
      match found with
      | some result => return (result, expanded)
      | none => .error (.missingAutoBase key baseKey)
  | .scaled baseKey combine => do
      let (base, expanded) ← resolver.requiredBase expand key baseKey expanded
      return (combine base, expanded)

theorem expandValue_eq [IsStrictOrderedRing F] (hread : ReadAsField F)
    (expand : String → Expanded F →
      Except (ExpansionError F) (Option (ConfigValue F) × Expanded F))
    (key : String) (value : ConfigValue F) (expanded : Expanded F) :
    resolver.expandValue expand key value expanded =
      resolver.expandForm expand key value expanded := by
  have hfactor : (Floats.literal 1125 3 : F) = 9 / 8 := by
    rw [hread.literal]
    norm_num
  have hhundred : (Floats.literal 1000 1 : F) = 100 := by
    rw [hread.literal]
    norm_num
  unfold expandValue expandForm form
  simp only [hread.mul, hread.div, hfactor, hhundred, Bool.and_eq_true, beq_iff_eq]
  split
  · rfl
  · split
    · rfl
    · cases BOTTOM_AUTO_BASES.find? fun row => row.1 == key && isPlainMinusOne value with
      | some row => rfl
      | none =>
          cases resolver.relative key value with
          | some found => rfl
          | none => rfl

variable (resolver) in
/-- `expandKey` with another answer of the guard. -/
def expandKeyWith (guard : String → ConfigValue F → Except (ExpansionError F) (ConfigValue F)) :
    Nat → BTreeSet String → String → Expanded F →
      Except (ExpansionError F) (Option (ConfigValue F) × Expanded F)
  | 0, _, key, expanded => .ok (resolver.source[key]?, expanded)
  | depth + 1, visiting, key, expanded =>
      match expanded[key]? with
      | some value => .ok (some value, expanded)
      | none =>
          match resolver.source[key]? with
          | none => .ok (none, expanded)
          | some value =>
              if key ∈ visiting then (guard key value).map fun answer => (some answer, expanded)
              else do
                let (result, expanded) ← resolver.expandValue
                  (expandKeyWith guard depth (visiting.insert key)) key value expanded
                return (some result, expanded.insert key result)

/-- The guard of the source answers with the value as it is. -/
def rawGuard (_key : String) (value : ConfigValue F) :
    Except (ExpansionError F) (ConfigValue F) :=
  .ok value

omit [Field F] [LinearOrder F] in
theorem expandKey_eq (depth : Nat) (visiting : BTreeSet String) (key : String)
    (expanded : Expanded F) :
    resolver.expandKey depth visiting key expanded =
      resolver.expandKeyWith rawGuard depth visiting key expanded := by
  induction depth generalizing visiting key expanded with
  | zero => rfl
  | succ depth ih =>
      have hnested : resolver.expandKey depth (visiting.insert key) =
          resolver.expandKeyWith rawGuard depth (visiting.insert key) := by
        funext key' expanded'
        exact ih (visiting.insert key) key' expanded'
      unfold expandKey expandKeyWith
      rw [hnested]
      rfl

/-! ### References that stop -/

variable (resolver) in
/-- Every value expanded so far is the recursive one. -/
def Sound (expanded : Expanded F) : Prop :=
  ∀ (key : String) (value : ConfigValue F), expanded[key]? = some value → resolver.Expands key value

/-- Nothing expanded so far is lost or changed. -/
def Extends (before after : Expanded F) : Prop :=
  ∀ (key : String) (value : ConfigValue F), before[key]? = some value → after[key]? = some value

variable (resolver) in
/-- An answer for a key is its recursive value, remembered; an error means there is none. -/
def Settled (key : String) (before : Expanded F) :
    Except (ExpansionError F) (Option (ConfigValue F) × Expanded F) → Prop
  | .error _ => (∃ value, resolver.source[key]? = some value) ∧ ¬ ∃ result, resolver.Expands key result
  | .ok (none, after) => resolver.source[key]? = none ∧ after = before
  | .ok (some result, after) =>
      resolver.Expands key result ∧ after[key]? = some result ∧ resolver.Sound after ∧
        Extends before after

theorem settled_insert {after : Expanded F} (hresult : resolver.Expands key result)
    (hsound : resolver.Sound after) (hextends : Extends before after) (hnew : before[key]? = none) :
    resolver.Settled key before (.ok (some result, after.insert key result)) := by
  refine ⟨hresult, ExtTreeMap.getElem?_insert_self, ?_, ?_⟩
  · intro key' value h
    obtain ⟨rfl, rfl⟩ | h := BTreeMap.getElem?_insert_cases h
    · exact hresult
    · exact hsound key' value h
  · intro key' value h
    have hne : key ≠ key' := by
      rintro rfl
      rw [hnew] at h
      cases h
    rw [BTreeMap.getElem?_insert_of_ne hne]
    exact hextends key' value h

variable (resolver) in
/-- An answer for a base is the one of the recursive definition. -/
def BaseSettled (baseKey : String) (before : Expanded F) :
    Except (ExpansionError F) (F × Expanded F) → Prop
  | .error _ => ¬ ∃ base, resolver.BaseIs baseKey base
  | .ok (base, after) =>
      resolver.BaseIs baseKey base ∧ resolver.Sound after ∧ Extends before after

theorem baseSettled_validate (hread : ReadAsField F) {number : F} {after : Expanded F}
    (hbase : ∀ base, resolver.BaseIs baseKey base ↔ 0 < base ∧ number = base)
    (hsound : resolver.Sound after) (hextends : Extends before after) :
    resolver.BaseSettled baseKey before
      ((validateBase key baseKey number).map fun base => (base, after)) := by
  rw [validateBase_eq hread]
  by_cases hpositive : 0 < number
  · rw [if_pos hpositive]
    exact ⟨(hbase number).mpr ⟨hpositive, rfl⟩, hsound, hextends⟩
  · rw [if_neg hpositive]
    rintro ⟨base, hbaseIs⟩
    obtain ⟨hpositive', rfl⟩ := (hbase base).mp hbaseIs
    exact hpositive hpositive'

theorem requiredBase_settled (hread : ReadAsField F) {expand : String → Expanded F →
      Except (ExpansionError F) (Option (ConfigValue F) × Expanded F)}
    {key baseKey : String} {before : Expanded F} (hsound : resolver.Sound before)
    (hbase : resolver.toolBase baseKey = none →
      resolver.Settled baseKey before (expand baseKey before)) :
    resolver.BaseSettled baseKey before
      (resolver.requiredBase expand key baseKey before) := by
  unfold requiredBase
  cases htool : resolver.toolBase baseKey with
  | some value =>
      refine baseSettled_validate hread (fun base => ?_) hsound fun _ _ h => h
      rw [BaseIs, htool]
  | none =>
      have hsettled := hbase htool
      simp only
      cases hexpand : expand baseKey before with
      | error error =>
          rw [hexpand] at hsettled
          obtain ⟨⟨value, hvalue⟩, hnone⟩ := hsettled
          rintro ⟨base, hbaseIs⟩
          obtain ⟨_, rfl, hmissing, _⟩ := (baseIs_of_not_expands htool hnone).mp hbaseIs
          rw [hmissing] at hvalue
          cases hvalue
      | ok answer =>
          obtain ⟨found, after⟩ := answer
          rw [hexpand] at hsettled
          cases found with
          | none =>
              obtain ⟨hmissing, rfl⟩ := hsettled
              have hnone : ¬ ∃ result, resolver.Expands baseKey result := by
                rintro ⟨result, hresult⟩
                obtain ⟨value, hvalue⟩ := hresult.source
                rw [hmissing] at hvalue
                cases hvalue
              by_cases hnozzle : baseKey = "nozzle_diameter"
              · subst hnozzle
                refine baseSettled_validate hread (fun base => ?_) hsound fun _ _ h => h
                rw [baseIs_of_not_expands htool hnone]
                exact and_congr_right fun _ => ⟨fun h => h.2.2, fun h => ⟨rfl, hmissing, h⟩⟩
              · change resolver.BaseSettled baseKey after
                  (if baseKey == "nozzle_diameter" then _ else .error (.unknownBaseKey key baseKey))
                rw [if_neg (by simpa using hnozzle)]
                rintro ⟨base, hbaseIs⟩
                exact hnozzle ((baseIs_of_not_expands htool hnone).mp hbaseIs).2.1
          | some result =>
              obtain ⟨hresult, _, hsound', hextends⟩ := hsettled
              have hiff := fun base => @baseIs_of_expands F _ _ _ resolver baseKey htool result
                hresult base
              change resolver.BaseSettled baseKey before (match baseNumber result with
                | some number => (validateBase key baseKey number).map fun base => (base, after)
                | none => .error (.unknownBaseKey key baseKey))
              cases hnumber : baseNumber result with
              | none =>
                  rintro ⟨base, hbaseIs⟩
                  have hbaseIs := ((hiff base).mp hbaseIs).2
                  rw [hnumber] at hbaseIs
                  cases hbaseIs
              | some number =>
                  refine baseSettled_validate hread (fun base => ?_) hsound' hextends
                  rw [hiff, hnumber, Option.some.injEq]

variable (resolver) in
/-- An answer for the value of a key is the recursive one. -/
def ValueSettled (key : String) (before : Expanded F) :
    Except (ExpansionError F) (ConfigValue F × Expanded F) → Prop
  | .error _ => ¬ ∃ result, resolver.Expands key result
  | .ok (result, after) =>
      resolver.Expands key result ∧ resolver.Sound after ∧ Extends before after

theorem expandForm_settled (hread : ReadAsField F)
    {expand : String → Expanded F →
      Except (ExpansionError F) (Option (ConfigValue F) × Expanded F)}
    (hsource : resolver.source[key]? = some value) (hsound : resolver.Sound before)
    (hnested : ∀ baseKey, resolver.reference key = some baseKey →
      resolver.Settled baseKey before (expand baseKey before)) :
    resolver.ValueSettled key before (resolver.expandForm expand key value before) := by
  have hiff := fun result => @expands_iff F _ _ _ resolver key value hsource result
  unfold expandForm
  cases hform : resolver.form key value with
  | plain => exact ⟨.plain hsource hform, hsound, fun _ _ h => h⟩
  | copies baseKey =>
      have hsettled := hnested baseKey (by simp [reference, hsource, hform])
      simp only [hform] at hiff ⊢
      cases hexpand : expand baseKey before with
      | error error =>
          rw [hexpand] at hsettled
          rintro ⟨result, hresult⟩
          exact hsettled.2 ⟨result, (hiff result).mp hresult⟩
      | ok answer =>
          obtain ⟨found, after⟩ := answer
          rw [hexpand] at hsettled
          cases found with
          | none =>
              rintro ⟨result, hresult⟩
              obtain ⟨value, hvalue⟩ := ((hiff result).mp hresult).source
              rw [hsettled.1] at hvalue
              cases hvalue
          | some result =>
              obtain ⟨hresult, _, hsound', hextends⟩ := hsettled
              exact ⟨(hiff result).mpr hresult, hsound', hextends⟩
  | scaled baseKey combine =>
      have hsettled := @requiredBase_settled F _ _ _ resolver hread expand key baseKey before hsound
        fun htool => hnested baseKey (by simp [reference, hsource, hform, htool])
      simp only [hform] at hiff ⊢
      cases hrequired : resolver.requiredBase expand key baseKey before with
      | error error =>
          rw [hrequired] at hsettled
          rintro ⟨result, hresult⟩
          obtain ⟨base, hbase, _⟩ := (hiff result).mp hresult
          exact hsettled ⟨base, hbase⟩
      | ok answer =>
          obtain ⟨base, after⟩ := answer
          rw [hrequired] at hsettled
          obtain ⟨hbase, hsound', hextends⟩ := hsettled
          exact ⟨(hiff _).mpr ⟨base, hbase, rfl⟩, hsound', hextends⟩

/-- Where the references of a key stop, its expansion is settled, whatever the guard
answers. -/
theorem expandKeyWith_settled [IsStrictOrderedRing F] (hread : ReadAsField F)
    (guard : String → ConfigValue F → Except (ExpansionError F) (ConfigValue F)) {depth : Nat}
    {visiting : BTreeSet String} (hends : Ends resolver.reference key)
    (hdepth : (resolver.source.keys.filter (· ∉ visiting)).length < depth)
    (habove : ∀ v ∈ visiting, TransGen (Step resolver.reference) v key)
    (hsound : resolver.Sound expanded) :
    resolver.Settled key expanded (resolver.expandKeyWith guard depth visiting key expanded) := by
  induction depth generalizing visiting key expanded with
  | zero => exact absurd hdepth (Nat.not_lt_zero _)
  | succ depth ih =>
      unfold expandKeyWith
      cases hmemo : expanded[key]? with
      | some value => exact ⟨hsound key value hmemo, hmemo, hsound, fun _ _ h => h⟩
      | none =>
          cases hsource : resolver.source[key]? with
          | none => exact ⟨hsource, rfl⟩
          | some value =>
              have hvisiting : key ∉ visiting := fun h => hends.not_cycle (habove key h)
              have hnested : ∀ baseKey, resolver.reference key = some baseKey →
                  resolver.Settled baseKey expanded
                    (resolver.expandKeyWith guard depth (visiting.insert key) baseKey expanded) := by
                intro baseKey href
                have hfewer := length_unvisited_lt mem_keys_of_reference hvisiting href
                exact ih (hends.of_step href) (by omega) (transGen_of_mem_insert href habove) hsound
              have hvalue := expandForm_settled hread hsource hsound hnested
              simp only [if_neg hvisiting, expandValue_eq hread]
              cases hform : resolver.expandForm
                  (resolver.expandKeyWith guard depth (visiting.insert key)) key value expanded with
              | error error =>
                  rw [hform] at hvalue
                  exact ⟨⟨value, hsource⟩, hvalue⟩
              | ok answer =>
                  rw [hform] at hvalue
                  exact settled_insert hvalue.1 hvalue.2.1 hvalue.2.2 hmemo

/-! ### References that do not stop -/

/-- A value that is no base: it has no number, or not a positive one. -/
def Unusable (value : ConfigValue F) : Prop :=
  ∀ number, baseNumber value = some number → ¬ 0 < number

/-- An answer that no base can be computed from. -/
def Refused : Except (ExpansionError F) (Option (ConfigValue F) × Expanded F) → Prop
  | .error _ => True
  | .ok (found, _) => ∃ value, found = some value ∧ Unusable value

/-- A sentinel that is not positive is no base. -/
theorem unusable_of_isPlain [IsStrictOrderedRing F] (hread : ReadAsField F) {n : Int} (hn : n ≤ 0)
    (h : isPlain n value = true) : Unusable value := by
  have hcast : ¬ 0 < (n : F) := by
    intro hpositive
    have hpositive : 0 < n := by exact_mod_cast hpositive
    omega
  have hliteral : (Floats.literal (n * 10) 1 : F) = n := by
    rw [hread.literal]
    push_cast
    field_simp
  intro number hnumber
  cases value with
  | float value =>
      simp only [isPlain, hread.eq_iff, hliteral] at h
      cases hnumber
      rwa [h]
  | int value =>
      simp only [isPlain, beq_iff_eq] at h
      cases hnumber
      rwa [hread.ofInt, h]
  | floatOrPercent value isPercent =>
      cases isPercent with
      | true => cases hnumber
      | false =>
          simp only [isPlain, hread.eq_iff, hliteral] at h
          cases hnumber
          rwa [h]
  | bool value | string value | list items | percent value => cases h

omit [Field F] [LinearOrder F] in
theorem baseNumber_of_percentMagnitude {percent : F} (h : percentMagnitude value = some percent) :
    baseNumber value = none := by
  cases value with
  | percent value => rfl
  | floatOrPercent value isPercent =>
      cases isPercent with
      | true => rfl
      | false => cases h
  | bool value | string value | list items | float value | int value => cases h

/-- The values that refer to others are no bases themselves. -/
theorem unusable_of_form [IsStrictOrderedRing F] (hread : ReadAsField F)
    (hform : resolver.form key value ≠ .plain) : Unusable value := by
  unfold form at hform
  split at hform
  · next h => exact unusable_of_isPlain hread (by decide) h.2
  · split at hform
    · next h => exact unusable_of_isPlain hread (by decide) h.2
    · split at hform
      · next hfind =>
          have hrow := List.find?_some hfind
          rw [Bool.and_eq_true] at hrow
          exact unusable_of_isPlain hread (by decide) hrow.2
      · split at hform
        · next hrelative =>
            obtain ⟨percent, hpercent, _⟩ := Option.bind_eq_some_iff.mp hrelative
            intro number hnumber
            rw [baseNumber_of_percentMagnitude hpercent] at hnumber
            cases hnumber
        · exact absurd rfl hform

omit [LinearOrder F] in
theorem mem_of_form_copies (hform : resolver.form key value = .copies baseKey) :
    (key, baseKey) ∈ BOTTOM_AUTO_BASES := by
  unfold form at hform
  split at hform
  · cases hform
  · split at hform
    · cases hform
    · split at hform
      · next bottomKey baseKey' hfind =>
          cases hform
          have hrow := List.find?_some hfind
          rw [Bool.and_eq_true, beq_iff_eq] at hrow
          rw [← hrow.1]
          exact List.mem_of_find?_eq_some hfind
      · split at hform
        · cases hform
        · cases hform

/-- A copied key is another key and copies nothing itself. -/
theorem bottom_bases_apart : ∀ row ∈ BOTTOM_AUTO_BASES,
    row.2 ≠ row.1 ∧ ∀ row' ∈ BOTTOM_AUTO_BASES, row'.1 ≠ row.2 := by
  decide

omit [LinearOrder F] in
/-- A key whose references do not stop refers to another such key. -/
theorem exists_reference (hends : ¬ Ends resolver.reference key) :
    ∃ value baseKey, resolver.source[key]? = some value ∧ ¬ Ends resolver.reference baseKey ∧
      resolver.form key value ≠ .plain ∧
      (resolver.form key value = .copies baseKey ∨
        ∃ combine, resolver.form key value = .scaled baseKey combine ∧
          resolver.toolBase baseKey = none) := by
  cases href : resolver.reference key with
  | none => exact absurd (.stop href) hends
  | some baseKey =>
      obtain ⟨value, hvalue, hbase⟩ := Option.bind_eq_some_iff.mp href
      refine ⟨value, baseKey, hvalue, fun hbaseEnds => hends (.step href hbaseEnds), ?_⟩
      cases hform : resolver.form key value with
      | plain => simp [hform] at hbase
      | copies other =>
          simp only [hform, Option.some.injEq] at hbase
          exact ⟨nofun, .inl (by rw [hbase])⟩
      | scaled other combine =>
          simp only [hform, Option.ite_none_left_eq_some, Option.not_isSome_iff_eq_none,
            Option.some.injEq] at hbase
          obtain ⟨htool, rfl⟩ := hbase
          exact ⟨nofun, .inr ⟨combine, rfl, htool⟩⟩

theorem getElem?_of_not_ends (hends : ¬ Ends resolver.reference key)
    (hsound : resolver.Sound expanded) : expanded[key]? = none := by
  cases hmemo : expanded[key]? with
  | none => rfl
  | some value => exact absurd (hsound key value hmemo).ends hends

theorem requiredBase_error (hread : ReadAsField F) {expand : String → Expanded F →
      Except (ExpansionError F) (Option (ConfigValue F) × Expanded F)}
    {key baseKey : String} {expanded : Expanded F} (htool : resolver.toolBase baseKey = none)
    (hrefused : Refused (expand baseKey expanded)) :
    ∃ error, resolver.requiredBase expand key baseKey expanded = .error error := by
  unfold requiredBase
  rw [htool]
  cases hexpand : expand baseKey expanded with
  | error error => exact ⟨error, rfl⟩
  | ok answer =>
      obtain ⟨found, after⟩ := answer
      rw [hexpand] at hrefused
      obtain ⟨value, rfl, hunusable⟩ := hrefused
      cases hnumber : baseNumber value with
      | none => exact ⟨.unknownBaseKey key baseKey, by simp [hnumber, bind, Except.bind]⟩
      | some number =>
          refine ⟨.nonPositiveBase key baseKey number, ?_⟩
          simp [hnumber, validateBase_eq hread, hunusable number hnumber, bind, Except.bind,
            Except.map]

/-- Where the references of a key do not stop, a number computed from them fails. -/
theorem expandForm_scaled_error (hread : ReadAsField F)
    {expand : String → Expanded F →
      Except (ExpansionError F) (Option (ConfigValue F) × Expanded F)} {combine : F → ConfigValue F}
    (hform : resolver.form key value = .scaled baseKey combine)
    (htool : resolver.toolBase baseKey = none) (hrefused : Refused (expand baseKey expanded)) :
    ∃ error, resolver.expandForm expand key value expanded = .error error := by
  obtain ⟨error, herror⟩ := @requiredBase_error F _ _ _ resolver hread expand key baseKey expanded
    htool hrefused
  refine ⟨error, ?_⟩
  rw [expandForm, hform]
  simp only [herror]
  rfl

/-- Where the references of a key do not stop, no base comes out. -/
theorem expandKeyWith_refused [IsStrictOrderedRing F] (hread : ReadAsField F) {depth : Nat}
    {visiting : BTreeSet String} {key : String} {expanded : Expanded F}
    (hends : ¬ Ends resolver.reference key) (hsound : resolver.Sound expanded) :
    Refused (resolver.expandKeyWith rawGuard depth visiting key expanded) := by
  induction depth generalizing visiting key expanded with
  | zero =>
      obtain ⟨value, baseKey, hvalue, _, hplain, _⟩ := exists_reference hends
      exact ⟨value, hvalue, unusable_of_form hread hplain⟩
  | succ depth ih =>
      obtain ⟨value, baseKey, hvalue, hbaseEnds, hplain, hform⟩ := exists_reference hends
      unfold expandKeyWith
      rw [getElem?_of_not_ends hends hsound, hvalue]
      simp only [expandValue_eq hread]
      split
      · exact ⟨value, rfl, unusable_of_form hread hplain⟩
      · have hrefused := @ih (visiting.insert key) baseKey expanded hbaseEnds hsound
        obtain hform | ⟨combine, hform, htool⟩ := hform
        · rw [expandForm, hform]
          simp only
          cases hexpand : resolver.expandKeyWith rawGuard depth (visiting.insert key) baseKey
              expanded with
          | error error => trivial
          | ok answer =>
              rw [hexpand] at hrefused
              obtain ⟨result, hfound, hunusable⟩ := hrefused
              obtain ⟨found, after⟩ := answer
              cases hfound
              exact ⟨result, rfl, hunusable⟩
        · obtain ⟨error, herror⟩ := expandForm_scaled_error hread hform htool hrefused
          rw [herror]
          trivial

/-- A key whose references do not stop fails when it is expanded on its own. -/
theorem expandKeyWith_error [IsStrictOrderedRing F] (hread : ReadAsField F) (depth : Nat)
    (hends : ¬ Ends resolver.reference key) (hsound : resolver.Sound expanded) :
    ∃ error, resolver.expandKeyWith rawGuard (depth + 2) ∅ key expanded = .error error := by
  -- a key that computes a number fails wherever it is not being visited
  have hscaled : ∀ (depth : Nat) (visiting : BTreeSet String) (key : String)
      (value : ConfigValue F) (baseKey : String) (combine : F → ConfigValue F),
      ¬ Ends resolver.reference key → key ∉ visiting → resolver.source[key]? = some value →
      ¬ Ends resolver.reference baseKey → resolver.form key value = .scaled baseKey combine →
      resolver.toolBase baseKey = none →
      ∃ error, resolver.expandKeyWith rawGuard (depth + 1) visiting key expanded = .error error := by
    intro depth visiting key value baseKey combine hends hvisiting hvalue hbaseEnds hform htool
    obtain ⟨error, herror⟩ := expandForm_scaled_error hread hform htool
      (@expandKeyWith_refused F _ _ _ resolver _ hread depth (visiting.insert key) baseKey expanded
        hbaseEnds hsound)
    refine ⟨error, ?_⟩
    unfold expandKeyWith
    rw [getElem?_of_not_ends hends hsound, hvalue]
    simp only [if_neg hvisiting, expandValue_eq hread, herror]
    rfl
  obtain ⟨value, baseKey, hvalue, hbaseEnds, _, hform | ⟨combine, hform, htool⟩⟩ :=
    exists_reference hends
  · -- the copied key is not visited and copies nothing, so it computes a number
    obtain ⟨hne, hapart⟩ := bottom_bases_apart _ (mem_of_form_copies hform)
    obtain ⟨value', baseKey', hvalue', hbaseEnds', _, hform' | ⟨combine', hform', htool'⟩⟩ :=
      exists_reference hbaseEnds
    · exact absurd rfl (hapart _ (mem_of_form_copies hform'))
    · have hvisiting : baseKey ∉ (∅ : BTreeSet String).insert key := by
        rw [ExtTreeSet.mem_insert, Std.compare_eq_iff_eq]
        rintro (heq | hmem)
        · exact hne heq.symm
        · exact absurd hmem ExtTreeSet.not_mem_empty
      obtain ⟨error, herror⟩ := hscaled depth _ baseKey value' baseKey' combine' hbaseEnds hvisiting
        hvalue' hbaseEnds' hform' htool'
      refine ⟨error, ?_⟩
      unfold expandKeyWith
      rw [getElem?_of_not_ends hends hsound, hvalue]
      simp only [if_neg ExtTreeSet.not_mem_empty, expandValue_eq hread, expandForm, hform, herror]
      rfl
  · exact hscaled (depth + 1) ∅ key value baseKey combine hends ExtTreeSet.not_mem_empty hvalue
      hbaseEnds hform htool

/-! ### Every key -/

variable (resolver) in
/-- `expandAll` over the keys in another order, with another answer of the guard. -/
def expandInOrder (guard : String → ConfigValue F → Except (ExpansionError F) (ConfigValue F))
    (order : List ConfigKey) : Except (ExpansionError F) (Expanded F) :=
  order.foldlM (fun expanded key =>
    (resolver.expandKeyWith guard (resolver.source.size + 1) ∅ key expanded).map Prod.snd) ∅

omit [Field F] [LinearOrder F] in
theorem expandAll_eq : resolver.expandAll = resolver.expandInOrder rawGuard resolver.source.keys := by
  unfold expandAll expandInOrder
  simp only [expandKey_eq]

section

variable [IsStrictOrderedRing F] (hread : ReadAsField F)
include hread

variable {expanded : Expanded F} {key : String} {order : List ConfigKey}

/-- A key whose references stop is settled when it is expanded on its own. -/
theorem expandKeyWith_settled_alone
    (guard : String → ConfigValue F → Except (ExpansionError F) (ConfigValue F))
    (hends : Ends resolver.reference key) (hsound : resolver.Sound expanded) :
    resolver.Settled key expanded
      (resolver.expandKeyWith guard (resolver.source.size + 1) ∅ key expanded) := by
  refine expandKeyWith_settled hread guard hends ?_
    (fun v hv => absurd hv ExtTreeSet.not_mem_empty) hsound
  refine Nat.lt_succ_of_le ?_
  rw [← ExtTreeMap.length_keys]
  exact List.length_filter_le _ _

/-- A key with a recursive value is expanded to it, whatever the guard answers. -/
theorem expandKeyWith_ok
    (guard : String → ConfigValue F → Except (ExpansionError F) (ConfigValue F))
    {result : ConfigValue F} (hresult : resolver.Expands key result)
    (hsound : resolver.Sound expanded) :
    ∃ after, resolver.expandKeyWith guard (resolver.source.size + 1) ∅ key expanded =
        .ok (some result, after) ∧
      after[key]? = some result ∧ resolver.Sound after ∧ Extends expanded after := by
  have hsettled := expandKeyWith_settled_alone hread guard hresult.ends hsound
  cases hexpand : resolver.expandKeyWith guard (resolver.source.size + 1) ∅ key expanded with
  | error error =>
      rw [hexpand] at hsettled
      exact absurd ⟨result, hresult⟩ hsettled.2
  | ok answer =>
      rw [hexpand] at hsettled
      obtain ⟨found, after⟩ := answer
      cases found with
      | none =>
          obtain ⟨value, hvalue⟩ := hresult.source
          rw [hsettled.1] at hvalue
          cases hvalue
      | some result' =>
          obtain ⟨hresult', hmemo, hsound', hextends⟩ := hsettled
          obtain rfl := hresult.unique hresult'
          exact ⟨after, rfl, hmemo, hsound', hextends⟩

theorem expandKeyWith_fails {value : ConfigValue F} (hsource : resolver.source[key]? = some value)
    (hnone : ¬ ∃ result, resolver.Expands key result) (hsound : resolver.Sound expanded) :
    ∃ error, resolver.expandKeyWith rawGuard (resolver.source.size + 1) ∅ key expanded =
      .error error := by
  by_cases hends : Ends resolver.reference key
  · have hsettled := expandKeyWith_settled_alone hread rawGuard hends hsound
    cases hexpand : resolver.expandKeyWith rawGuard (resolver.source.size + 1) ∅ key expanded with
    | error error => exact ⟨error, rfl⟩
    | ok answer =>
        rw [hexpand] at hsettled
        obtain ⟨found, after⟩ := answer
        cases found with
        | none =>
            rw [hsettled.1] at hsource
            cases hsource
        | some result => exact absurd ⟨result, hsettled.1⟩ hnone
  · have hsize : resolver.source.size - 1 + 1 = resolver.source.size := by
      have hmem : key ∈ resolver.source.keys :=
        ExtTreeMap.mem_keys.mpr (BTreeMap.mem_iff_getElem?_isSome.mpr ⟨value, hsource⟩)
      have := List.length_pos_of_mem hmem
      rw [ExtTreeMap.length_keys] at this
      omega
    rw [← hsize]
    exact expandKeyWith_error hread (resolver.source.size - 1) hends hsound

/-- Keys that all have recursive values are expanded to them, whatever the guard answers. -/
theorem foldlM_expandKeyWith_ok
    (guard : String → ConfigValue F → Except (ExpansionError F) (ConfigValue F))
    (hall : ∀ key ∈ order, ∃ result, resolver.Expands key result) {before : Expanded F}
    (hsound : resolver.Sound before) :
    ∃ expanded, order.foldlM (fun expanded key =>
        (resolver.expandKeyWith guard (resolver.source.size + 1) ∅ key expanded).map Prod.snd)
          before = .ok expanded ∧
      resolver.Sound expanded ∧ Extends before expanded ∧
      ∀ key ∈ order, ∃ result, expanded[key]? = some result := by
  induction order generalizing before with
  | nil => exact ⟨before, rfl, hsound, fun _ _ h => h, fun key hkey => absurd hkey List.not_mem_nil⟩
  | cons first rest ih =>
      obtain ⟨result, hresult⟩ := hall first List.mem_cons_self
      obtain ⟨after, hfirst, hmemo, hsound', hextends⟩ :=
        expandKeyWith_ok hread guard hresult hsound
      obtain ⟨expanded, hrest, hsound'', hextends', hkeys⟩ :=
        ih (fun key hkey => hall key (List.mem_cons_of_mem _ hkey)) hsound'
      refine ⟨expanded, ?_, hsound'', fun key value h => hextends' key value (hextends key value h),
        fun key hkey => ?_⟩
      · rw [List.foldlM_cons, hfirst]
        exact hrest
      · obtain rfl | hkey := List.mem_cons.mp hkey
        · exact ⟨result, hextends' key result hmemo⟩
        · exact hkeys key hkey

/-- One key of the source without a recursive value makes the expansion fail. -/
theorem foldlM_expandKeyWith_fails
    (horder : ∀ key ∈ order, ∃ value, resolver.source[key]? = some value) {key : ConfigKey}
    (hkey : key ∈ order) (hnone : ¬ ∃ result, resolver.Expands key result) {before : Expanded F}
    (hsound : resolver.Sound before) :
    ∃ error, order.foldlM (fun expanded key =>
        (resolver.expandKeyWith rawGuard (resolver.source.size + 1) ∅ key expanded).map Prod.snd)
          before = .error error := by
  induction order generalizing before with
  | nil => exact absurd hkey List.not_mem_nil
  | cons first rest ih =>
      rw [List.foldlM_cons]
      by_cases hfirst : ∃ result, resolver.Expands first result
      · obtain ⟨result, hresult⟩ := hfirst
        obtain ⟨after, hexpand, _, hsound', _⟩ := expandKeyWith_ok hread rawGuard hresult hsound
        have hrest : key ∈ rest := by
          obtain rfl | hrest := List.mem_cons.mp hkey
          · exact absurd ⟨result, hresult⟩ hnone
          · exact hrest
        obtain ⟨error, herror⟩ :=
          ih (fun key hkey => horder key (List.mem_cons_of_mem _ hkey)) hrest hsound'
        refine ⟨error, ?_⟩
        rw [hexpand]
        exact herror
      · obtain ⟨value, hvalue⟩ := horder first List.mem_cons_self
        obtain ⟨error, herror⟩ := expandKeyWith_fails hread hvalue hfirst hsound
        refine ⟨error, ?_⟩
        rw [herror]
        rfl

section

omit [IsStrictOrderedRing F] hread

theorem sound_empty : resolver.Sound ∅ := by
  intro key value h
  simp at h

/-- A sound map with a value for every key of the source holds exactly the recursive
values. -/
theorem Sound.getElem?_iff (hsound : resolver.Sound expanded)
    (hkeys : ∀ key ∈ resolver.source.keys, ∃ result, expanded[key]? = some result) (key : String)
    (value : ConfigValue F) : expanded[key]? = some value ↔ resolver.Expands key value := by
  refine ⟨hsound key value, fun hvalue => ?_⟩
  obtain ⟨raw, hraw⟩ := hvalue.source
  obtain ⟨result, hresult⟩ := hkeys key
    (ExtTreeMap.mem_keys.mpr (BTreeMap.mem_iff_getElem?_isSome.mpr ⟨raw, hraw⟩))
  rw [hresult, hvalue.unique (hsound key result hresult)]

theorem eq_of_values {expanded' : Expanded F}
    (h : ∀ (key : String) (value : ConfigValue F),
      expanded[key]? = some value ↔ resolver.Expands key value)
    (h' : ∀ (key : String) (value : ConfigValue F),
      expanded'[key]? = some value ↔ resolver.Expands key value) : expanded = expanded' := by
  refine ExtTreeMap.ext_getElem? fun key => Option.ext fun value => ?_
  rw [h, h']

end

/-- With recursive values for all keys, every order gives the map of these values,
whatever the guard answers. -/
theorem expandInOrder_eq_ok
    (guard : String → ConfigValue F → Except (ExpansionError F) (ConfigValue F))
    (horder : order.Perm resolver.source.keys)
    (hall : ∀ key ∈ resolver.source.keys, ∃ result, resolver.Expands key result) :
    ∃ expanded : Expanded F, resolver.expandInOrder guard order = .ok expanded ∧
      ∀ (key : String) (value : ConfigValue F),
        expanded[key]? = some value ↔ resolver.Expands key value := by
  obtain ⟨expanded, hok, hsound, _, hkeys⟩ := foldlM_expandKeyWith_ok hread guard
    (fun key hkey => hall key (horder.mem_iff.mp hkey)) sound_empty
  exact ⟨expanded, hok, hsound.getElem?_iff fun key hkey => hkeys key (horder.mem_iff.mpr hkey)⟩

/-- The expansion over the keys of the source, in any order, succeeds with exactly the
recursive values, or fails because a key has none. -/
theorem expandInOrder_eq_ok_iff (horder : order.Perm resolver.source.keys) :
    resolver.expandInOrder rawGuard order = .ok expanded ↔
      (∀ key ∈ resolver.source.keys, ∃ result, resolver.Expands key result) ∧
        ∀ (key : String) (value : ConfigValue F),
          expanded[key]? = some value ↔ resolver.Expands key value := by
  constructor
  · intro hok
    have hall : ∀ key ∈ resolver.source.keys, ∃ result, resolver.Expands key result := by
      intro key hkey
      by_contra hnone
      obtain ⟨error, herror⟩ := foldlM_expandKeyWith_fails hread
        (fun key hkey => BTreeMap.mem_iff_getElem?_isSome.mp
          (ExtTreeMap.mem_keys.mp (horder.mem_iff.mp hkey)))
        (horder.mem_iff.mpr hkey) hnone sound_empty
      rw [expandInOrder, herror] at hok
      cases hok
    obtain ⟨found, hfound, hvalues⟩ := expandInOrder_eq_ok hread rawGuard horder hall
    rw [hfound] at hok
    cases hok
    exact ⟨hall, hvalues⟩
  · rintro ⟨hall, hexpanded⟩
    obtain ⟨found, hfound, hvalues⟩ := expandInOrder_eq_ok hread rawGuard horder hall
    rw [hfound, eq_of_values hvalues hexpanded]

end

end ExpansionResolver

/-! ### The call -/

/-- `expand_automatic_values` on the config it is given: the result, and the config after
the call. -/
def expandAutomaticValuesInPlace (registry : ConfigSchemaRegistry F)
    (context : ExpansionContext F) (toolIndex : Option Nat) :
    ExceptT (ExpansionError F) (StateM (ResolvedConfig F)) Unit := do
  let config ← get
  match expandAutomaticValues registry config context toolIndex with
  | .error error => throw error
  | .ok candidate => set candidate

omit [Field F] in
theorem run_expandAutomaticValuesInPlace (registry : ConfigSchemaRegistry F)
    (config : ResolvedConfig F) (context : ExpansionContext F) (toolIndex : Option Nat) :
    (expandAutomaticValuesInPlace registry context toolIndex).run.run config =
      match expandAutomaticValues registry config context toolIndex with
      | .error error => (.error error, config)
      | .ok candidate => (.ok (), candidate) := by
  have hrun : (expandAutomaticValuesInPlace registry context toolIndex).run.run config =
      (match expandAutomaticValues registry config context toolIndex with
        | .error error => throw error
        | .ok candidate => set candidate :
        ExceptT (ExpansionError F) (StateM (ResolvedConfig F)) Unit).run.run config := rfl
  rw [hrun]
  cases expandAutomaticValues registry config context toolIndex with
  | error error => rfl
  | ok candidate => rfl

/-- Expansion computes the recursive values and no others, whatever the guard answers; it
succeeds or fails with any order of the keys alike; and a failure leaves the config as it
was. -/
theorem expandAutomaticValues_order_free [IsStrictOrderedRing F] (hread : ReadAsField F)
    (registry : ConfigSchemaRegistry F) (config : ResolvedConfig F) (context : ExpansionContext F)
    (toolIndex : Option Nat) :
    let resolver : ExpansionResolver F :=
      { registry, source := config.toConfigMap, context, toolIndex }
    let call := (expandAutomaticValuesInPlace registry context toolIndex).run.run config
    (∀ config', call = (.ok (), config') → ∃ expanded : Expanded F,
      (∀ key ∈ resolver.source.keys, ∃ value, resolver.Expands key value) ∧
      (∀ (key : String) (value : ConfigValue F),
        expanded[key]? = some value ↔ resolver.Expands key value) ∧
      (∀ guard, resolver.expandInOrder guard resolver.source.keys = .ok expanded) ∧
      config' = expanded.toList.foldl resolver.commit config) ∧
    (∀ order : List ConfigKey, order.Perm resolver.source.keys → ∀ expanded,
      resolver.expandInOrder ExpansionResolver.rawGuard order = .ok expanded ↔
        resolver.expandAll = .ok expanded) ∧
    ∀ error config', call = (.error error, config') → config' = config := by
  intro resolver call
  have hcall : call = match resolver.expandAll with
      | .error error => (.error error, config)
      | .ok expanded => (.ok (), expanded.toList.foldl resolver.commit config) := by
    have hvalues : expandAutomaticValues registry config context toolIndex =
        resolver.expandAll.map fun expanded => expanded.toList.foldl resolver.commit config := rfl
    rw [show call = _ from run_expandAutomaticValuesInPlace registry config context toolIndex,
      hvalues]
    cases resolver.expandAll with
    | error error => rfl
    | ok expanded => rfl
  have hkeys : resolver.source.keys.Perm resolver.source.keys := .refl _
  refine ⟨fun config' hok => ?_, fun order horder expanded => ?_, fun error config' herror => ?_⟩
  · cases hexpand : resolver.expandAll with
    | error error =>
        rw [hcall, hexpand] at hok
        cases hok
    | ok expanded =>
        rw [hcall, hexpand] at hok
        cases hok
        rw [ExpansionResolver.expandAll_eq] at hexpand
        obtain ⟨hall, hvalues⟩ :=
          (ExpansionResolver.expandInOrder_eq_ok_iff hread hkeys).mp hexpand
        refine ⟨expanded, hall, hvalues, fun guard => ?_, rfl⟩
        obtain ⟨found, hfound, hvalues'⟩ :=
          ExpansionResolver.expandInOrder_eq_ok hread guard hkeys hall
        rw [hfound, ExpansionResolver.eq_of_values hvalues' hvalues]
  · rw [ExpansionResolver.expandAll_eq, ExpansionResolver.expandInOrder_eq_ok_iff hread horder,
      ExpansionResolver.expandInOrder_eq_ok_iff hread hkeys]
  · cases hexpand : resolver.expandAll with
    | error error' =>
        rw [hcall, hexpand] at herror
        cases herror
        rfl
    | ok expanded =>
        rw [hcall, hexpand] at herror
        cases herror

theorem readAsField_rat : ReadAsField ℚ where
  lt_iff _ _ := decide_eq_true_iff
  eq_iff _ _ := decide_eq_true_iff
  mul _ _ := rfl
  div _ _ := rfl
  isFinite _ := rfl
  literal _ _ := rfl
  ofInt _ := rfl

/-- The one declared key, a percentage of the line width. -/
def innerWallEntry : RegistryEntry ℚ where
  key := "inner_wall_line_width"
  fieldType := "float_or_percent"
  default := none
  min := none
  max := none
  values := none
  deniedScopes := []
  selector := false
  omitFromConfigBlock := false
  baseKey := some "line_width"
  hostMeta := none
  moduleMeta := none
  provenance := []

/-- The registry of this key. -/
def innerWallRegistry : ConfigSchemaRegistry ℚ where
  entries := (∅ : BTreeMap String (RegistryEntry ℚ)).insert innerWallEntry.key innerWallEntry
  keyed := by
    intro key entry h
    rw [ExtTreeMap.getElem?_insert] at h
    split_ifs at h with hkey
    · cases h
      exact Std.LawfulEqCmp.eq_of_compare hkey
    · simp at h

/-- An automatic line width, a percentage of it, and a number of layers that follows another. -/
def autoLineWidth : ResolvedConfig ℚ where
  fields := ∅
  extensions := ExtTreeMap.ofList [("line_width", .float 0),
    ("inner_wall_line_width", .percent 150), ("support_interface_top_layers", .int 3),
    ("support_interface_bottom_layers", .int (-1))] compare

/-- The automatic line width of a 0.4 mm nozzle, and what is derived from it. -/
theorem autoLineWidth_order_free :
    let resolver : ExpansionResolver ℚ :=
      { registry := innerWallRegistry, source := autoLineWidth.toConfigMap,
        context := { nozzleDiameterMm := 2 / 5 }, toolIndex := none }
    (resolver.expandAll.toOption.map ExtTreeMap.toList) =
        some [("inner_wall_line_width", .float (27 / 40)), ("line_width", .float (9 / 20)),
          ("support_interface_bottom_layers", .int 3), ("support_interface_top_layers", .int 3)] ∧
      ∀ order : List ConfigKey, order.Perm resolver.source.keys → ∀ expanded,
        resolver.expandInOrder ExpansionResolver.rawGuard order = .ok expanded ↔
          resolver.expandAll = .ok expanded :=
  ⟨by decide +kernel, (expandAutomaticValues_order_free readAsField_rat innerWallRegistry
    autoLineWidth { nozzleDiameterMm := 2 / 5 } none).2.1⟩

end PinchNPrint.Config
