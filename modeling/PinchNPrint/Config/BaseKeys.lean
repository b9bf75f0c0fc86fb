/-
Base-key validation is exact.

The base keys of a registry form a partial function on keys, so the second pass
of `validateBaseKeys` follows one chain from each key. Its loop always answers
(`baseChainRepeats_walk`), and it answers for a chain that runs into a cycle
whether or not the cycle comes back to the key it started from
(`baseChainRepeats_iff`).
-/

import PinchNPrint.Config.Registry
import PinchNPrint.Lib.Chain

namespace PinchNPrint.Config

open Std Relation Chain

variable {F : Type} {entries : BTreeMap String (RegistryEntry F)}

/-- The key names a base key. -/
abbrev HasBase (entries : BTreeMap String (RegistryEntry F)) : String → String → Prop :=
  Step (baseOf entries)

/-- Every named base key is a declared entry of a numeric type. -/
def BasesDeclared (entries : BTreeMap String (RegistryEntry F)) : Prop :=
  ∀ key base, HasBase entries key base → ∃ baseEntry, entries[base]? = some baseEntry ∧
    (baseEntry.fieldType = "float" ∨ baseEntry.fieldType = "float_or_percent")

/-- The graph of base keys has no cycle. -/
def BasesAcyclic (entries : BTreeMap String (RegistryEntry F)) : Prop :=
  ∀ key, ¬ TransGen (HasBase entries) key key

theorem mem_keys_of_baseOf {key base : String} (h : baseOf entries key = some base) :
    key ∈ entries.keys := by
  obtain ⟨entry, hentry, -⟩ := Option.bind_eq_some_iff.mp h
  exact ExtTreeMap.mem_keys.mpr (BTreeMap.mem_iff_getElem?_isSome.mpr ⟨entry, hentry⟩)

/-- With a round for each unvisited entry and one more, the bounded loop is the
loop of the source. -/
theorem baseChainRepeats_walk_of_lt (rounds : Nat) {visited : BTreeSet String} {current : String}
    (h : (entries.keys.filter (· ∉ visited)).length < rounds) :
    Walk (baseOf entries) visited current (baseChainRepeats entries rounds visited current) := by
  induction rounds generalizing visited current with
  | zero => omega
  | succ rounds ih =>
    rw [baseChainRepeats]
    split
    · rename_i hback
      exact .back hback
    · rename_i hfresh
      cases hnext : baseOf entries current with
      | none => exact .stop hfresh hnext
      | some next =>
        have hfewer := length_unvisited_lt (fun a b => mem_keys_of_baseOf) hfresh hnext
        exact .step hfresh hnext (ih (by omega))

/-- The loop from a key of the registry answers within the rounds it is given. -/
theorem baseChainRepeats_walk (entries : BTreeMap String (RegistryEntry F))
    (visited : BTreeSet String) (current : String) :
    Walk (baseOf entries) visited current
      (baseChainRepeats entries (entries.size + 1) visited current) := by
  apply baseChainRepeats_walk_of_lt
  have hle := List.length_filter_le (fun key => decide (key ∉ visited)) entries.keys
  rw [ExtTreeMap.length_keys] at hle
  omega

/-- The loop started at a key answers `true` exactly when the chain from the key
runs into a cycle, be the key on it or not. -/
theorem baseChainRepeats_iff {key base : String} (h : HasBase entries key base) :
    baseChainRepeats entries (entries.size + 1) (ExtTreeSet.ofList [key] compare) base = true ↔
      ∃ c, ReflTransGen (HasBase entries) key c ∧ TransGen (HasBase entries) c c := by
  have hwalk := baseChainRepeats_walk entries (ExtTreeSet.ofList [key] compare) base
  constructor
  · intro htrue
    have habove : ∀ v ∈ ExtTreeSet.ofList [key] compare, TransGen (HasBase entries) v base := by
      intro v hv
      obtain rfl := List.mem_singleton.mp (BTreeSet.mem_ofList_iff.mp hv)
      exact .single h
    obtain ⟨c, walk, cycle⟩ := hwalk.cycle_of_true habove htrue
    exact ⟨c, .head h walk, cycle⟩
  · rintro ⟨c, walk, cycle⟩
    by_contra hfalse
    have hends : Ends (baseOf entries) key :=
      .step h (hwalk.ends_of_false (by simpa using hfalse))
    have hstops : Ends (baseOf entries) c := by
      clear cycle
      induction walk with
      | refl => exact hends
      | tail _ edge ih => exact ih.of_step edge
    exact hstops.not_cycle cycle

/-! ### The two passes -/

theorem validateBaseKey_iff {row : String × RegistryEntry F} :
    validateBaseKey entries row = .ok () ↔ ∀ base, row.2.baseKey = some base →
      ∃ baseEntry, entries[base]? = some baseEntry ∧
        (baseEntry.fieldType = "float" ∨ baseEntry.fieldType = "float_or_percent") := by
  rw [validateBaseKey]
  cases row.2.baseKey with
  | none => simp
  | some base =>
    cases hbase : entries[base]? with
    | none => simp [hbase]
    | some baseEntry => simp [hbase, or_iff_not_imp_left]

theorem validateBaseChain_iff {row : String × RegistryEntry F} :
    validateBaseChain entries row = .ok () ↔ ∀ base, row.2.baseKey = some base →
      baseChainRepeats entries (entries.size + 1) (ExtTreeSet.ofList [row.1] compare) base =
        false := by
  rw [validateBaseChain]
  cases row.2.baseKey with
  | none => simp
  | some base =>
    simp only [Option.some_inj, forall_eq']
    cases baseChainRepeats entries (entries.size + 1) (ExtTreeSet.ofList [row.1] compare) base <;>
      simp

/-- A pass over the rows of the registry is a pass over the named base keys. -/
theorem forall_row_iff {P : String → String → Prop} :
    (∀ row ∈ entries.toList, ∀ base, row.2.baseKey = some base → P row.1 base) ↔
      ∀ key base, HasBase entries key base → P key base := by
  constructor
  · intro h key base hbase
    obtain ⟨entry, hentry, hbase⟩ := Option.bind_eq_some_iff.mp hbase
    exact h (key, entry) (ExtTreeMap.mem_toList_iff_getElem?_eq_some.mpr hentry) base hbase
  · rintro h ⟨key, entry⟩ hrow base hbase
    have hentry := ExtTreeMap.mem_toList_iff_getElem?_eq_some.mp hrow
    exact h key base (Option.bind_eq_some_iff.mpr ⟨entry, hentry, hbase⟩)

/-- **Base-key validation is exact and terminates.** The loop of the second pass
answers for every key that names a base key, and validation succeeds exactly when
every named base key is a declared numeric entry and no chain of base keys is
cyclic. -/
theorem validateBaseKeys_exact (entries : BTreeMap String (RegistryEntry F)) :
    (∀ key base, HasBase entries key base →
      Walk (baseOf entries) (ExtTreeSet.ofList [key] compare) base
        (baseChainRepeats entries (entries.size + 1) (ExtTreeSet.ofList [key] compare) base)) ∧
    (validateBaseKeys entries = .ok () ↔ BasesDeclared entries ∧ BasesAcyclic entries) := by
  refine ⟨fun key base _ => baseChainRepeats_walk entries _ base, ?_⟩
  have hfirst : entries.toList.forM (validateBaseKey entries) = .ok () ↔ BasesDeclared entries := by
    rw [Except.forM_eq_ok_iff]
    simp only [validateBaseKey_iff]
    exact forall_row_iff (P := fun _ base => ∃ baseEntry, entries[base]? = some baseEntry ∧
      (baseEntry.fieldType = "float" ∨ baseEntry.fieldType = "float_or_percent"))
  have hsecond : entries.toList.forM (validateBaseChain entries) = .ok () ↔
      BasesAcyclic entries := by
    rw [Except.forM_eq_ok_iff]
    simp only [validateBaseChain_iff]
    rw [forall_row_iff (P := fun key base => baseChainRepeats entries (entries.size + 1)
      (ExtTreeSet.ofList [key] compare) base = false)]
    constructor
    · intro h key cycle
      obtain ⟨base, hbase, -⟩ := TransGen.head'_iff.mp cycle
      have htrue := (baseChainRepeats_iff hbase).mpr ⟨key, .refl, cycle⟩
      rw [h key base hbase] at htrue
      cases htrue
    · intro h key base hbase
      by_contra hne
      obtain ⟨c, -, cycle⟩ := (baseChainRepeats_iff hbase).mp (by simpa using hne)
      exact h c cycle
  rw [← hfirst, ← hsecond, validateBaseKeys]
  constructor
  · intro h
    obtain ⟨⟨⟩, hone, htwo⟩ := Except.of_bind_eq_ok h
    exact ⟨hone, htwo⟩
  · rintro ⟨hone, htwo⟩
    rw [hone]
    exact htwo

end PinchNPrint.Config
