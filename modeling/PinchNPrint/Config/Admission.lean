/-
Which keys a scope may state, at ingestion and at resolution.

Three places look a key up: `typingEntry` at ingestion (exact, wildcard, or
canonical spelling), the eligibility gate of `applyDelta` (the canonical
spelling, exact entries only) and the gate of `ingestLayerRanges` (the authored
spelling, exact entries only). The main result says for every key an ingestor
can retain when the gate of resolution decides as the typing entry does, and
the same for the gate of layer ranges.
-/

import PinchNPrint.Config.Ingestion
import PinchNPrint.Config.Precedence
import PinchNPrint.Lib.Runs

namespace PinchNPrint.Config

open Std

variable {F : Type}

/-! ### The lookups -/

/-- The gate of resolution decides about a key as its typing entry does: a key
typed through a wildcard is denied by it, and a legacy spelling with an entry
of its own is denied exactly when its canonical spelling is undeclared or
denied. -/
structure SpellingsAgree (registry : ConfigSchemaRegistry F) (scope : ConfigScope)
    (key : ConfigKey) : Prop where
  wildcard : registry.entry key = none → canonicalConfigKey key = key →
    ∀ entry, registry.wildcard key = some entry → entry.denies scope = true
  legacy : canonicalConfigKey key ≠ key → ∀ own, registry.entry key = some own →
    (own.denies scope = true ↔
      ∀ entry, registry.entry (canonicalConfigKey key) = some entry → entry.denies scope = true)

variable {key : ConfigKey}

/-- Neither spelling of an alias has the shape of a wildcard's instance. -/
theorem wildcard_alias (registry : ConfigSchemaRegistry F) (h : canonicalConfigKey key ≠ key) :
    registry.wildcard key = none ∧ registry.wildcard (canonicalConfigKey key) = none := by
  cases hfind : CONFIG_KEY_ALIASES.find? fun row => key == row.1 with
  | none => exact absurd (by simp only [canonicalConfigKey, hfind]) h
  | some row =>
    have hcanonical : canonicalConfigKey key = row.2 := by simp only [canonicalConfigKey, hfind]
    have hkey : key = row.1 := by simpa using List.find?_some hfind
    have hnone : ∀ row ∈ CONFIG_KEY_ALIASES,
        Text.rsplitOnce ':' row.1 = none ∧ Text.rsplitOnce ':' row.2 = none := by decide
    obtain ⟨hlegacy, hcanon⟩ := hnone row (List.mem_of_find?_eq_some hfind)
    rw [hcanonical, hkey]
    simp only [ConfigSchemaRegistry.wildcard, hlegacy, hcanon, and_self]

/-- The three ways a key can be typed. -/
theorem typingEntry_cases {registry : ConfigSchemaRegistry F} {entry : RegistryEntry F}
    (h : typingEntry registry key = some entry) :
    registry.entry key = some entry ∨
      (registry.entry key = none ∧ canonicalConfigKey key = key ∧
        registry.wildcard key = some entry) ∨
      (registry.entry key = none ∧ canonicalConfigKey key ≠ key ∧
        registry.entry (canonicalConfigKey key) = some entry) := by
  cases hexact : registry.entry key with
  | some own =>
    simp only [typingEntry, ConfigSchemaRegistry.entryOrWildcard, hexact, Option.some_or] at h
    exact Or.inl h
  | none =>
    refine Or.inr ?_
    by_cases hcanonical : canonicalConfigKey key = key
    · left
      simp only [typingEntry, ConfigSchemaRegistry.entryOrWildcard, hexact, hcanonical, ne_eq,
        not_true_eq_false, if_false, Option.none_or, Option.or_none] at h
      exact ⟨rfl, hcanonical, h⟩
    · right
      obtain ⟨hwild, hwild'⟩ := wildcard_alias registry hcanonical
      simp only [typingEntry, ConfigSchemaRegistry.entryOrWildcard, hexact, hcanonical, ne_eq,
        not_false_eq_true, if_true, Option.none_or, hwild, hwild', Option.or_none] at h
      exact ⟨rfl, hcanonical, h⟩

/-- The gate of resolution against the typing entry. -/
theorem admitted_iff_spellingsAgree {registry : ConfigSchemaRegistry F} {scope : ConfigScope}
    {entry : RegistryEntry F} (h : typingEntry registry key = some entry) :
    (canonicalConfigKey key ∉ registry.admissionSet scope ↔ entry.denies scope = true) ↔
      SpellingsAgree registry scope key := by
  rw [ConfigSchemaRegistry.mem_admissionSet]
  rcases typingEntry_cases h with hexact | ⟨hexact, hcanonical, hwild⟩ | ⟨hexact, hcanonical, hcanon⟩
  · by_cases hcanonical : canonicalConfigKey key = key
    · -- The canonical spelling has the typing entry itself.
      rw [hcanonical]
      constructor
      · intro _
        exact ⟨by simp [hexact], fun hne => absurd hcanonical hne⟩
      · intro _
        simp [hexact]
    · constructor
      · intro hgate
        refine ⟨by simp [hexact], fun _ own hown => ?_⟩
        rw [hexact] at hown
        cases hown
        rw [← hgate]
        simp
      · intro hagree
        rw [hagree.legacy hcanonical entry hexact]
        simp
  · -- Typed through a wildcard: the gate knows no entry at all.
    rw [hcanonical, hexact]
    constructor
    · intro hgate
      refine ⟨fun _ _ found hfound => ?_, fun hne => absurd hcanonical hne⟩
      rw [hwild] at hfound
      cases hfound
      exact hgate.mp (by simp)
    · intro hagree
      simp [hagree.wildcard hexact hcanonical entry hwild]
  · constructor
    · intro _
      refine ⟨fun _ heq => absurd heq hcanonical, fun _ own hown => ?_⟩
      rw [hexact] at hown
      cases hown
    · intro _
      simp [hcanon]

/-! ### The gate of resolution -/

/-- The delta that states one value. -/
def ScopeDelta.single (key : ConfigKey) (value : ConfigValue F) : ScopeDelta F where
  values := (∅ : BTreeMap ConfigKey (ConfigValue F)).insert key value

theorem ScopeDelta.toList_single (key : ConfigKey) (value : ConfigValue F) :
    (ScopeDelta.single key value).values.toList = [(key, value)] :=
  List.perm_singleton.mp (BTreeMap.toList_insert_perm (by simp) value)

theorem ScopeDelta.keys_single (key : ConfigKey) (value : ConfigValue F) :
    (ScopeDelta.single key value).values.keys = [key] := by
  rw [← ExtTreeMap.map_fst_toList_eq_keys, ScopeDelta.toList_single]
  rfl

/-- A single statement conflicts with no other spelling. -/
theorem aliasConflict_single (key : ConfigKey) (value : ConfigValue F) :
    aliasConflict (ScopeDelta.single key value) = none := by
  refine List.find?_eq_none.mpr fun row hrow hboth => ?_
  have hne : ∀ row ∈ CONFIG_KEY_ALIASES, row.1 ≠ row.2 := by decide
  simp only [ScopeDelta.single, ExtTreeMap.mem_insert, Std.compare_eq_iff_eq,
    ExtTreeMap.not_mem_empty, or_false, Bool.and_eq_true, decide_eq_true_eq] at hboth
  exact hne row hrow (hboth.1.symm.trans hboth.2)

theorem firstDenied_single (registry : ConfigSchemaRegistry F) (scope : ConfigScope)
    (key : ConfigKey) (value : ConfigValue F) :
    firstDenied registry scope (ScopeDelta.single key value) =
      if canonicalConfigKey key ∈ registry.admissionSet scope then none
      else some (canonicalConfigKey key) := by
  rw [firstDenied, ScopeDelta.keys_single]
  by_cases hmem : canonicalConfigKey key ∈ registry.admissionSet scope <;> simp [hmem]

/-- Not the error of an eligibility gate. -/
def NotDenied (error : ResolutionError F) : Prop :=
  ∀ key scope, error ≠ .scopeDenied key scope

section Resolution

variable [Floats F]

theorem validateExtension_notDenied (registry : ConfigSchemaRegistry F) (key : ConfigKey)
    (value : ConfigValue F) : Except.FailsWith NotDenied (validateExtension registry key value) := by
  intro error herror
  rw [validateExtension] at herror
  cases hentry : registry.entryOrWildcard key with
  | none =>
    rw [hentry] at herror
    cases herror
  | some entry =>
    rw [hentry] at herror
    obtain ⟨inner, -, rfl⟩ := Except.of_mapError_eq_error herror
    exact nofun

theorem applyValue_notDenied (registry : ConfigSchemaRegistry F) (config : ResolvedConfig F)
    (row : ConfigKey × ConfigValue F) :
    Except.FailsWith NotDenied (applyValue registry config row) := by
  apply Except.FailsWith.bind
  · exact validateExtension_notDenied registry _ _
  · intro _
    apply Except.FailsWith.bind
    · intro error herror
      obtain ⟨inner, -, rfl⟩ := Except.of_mapError_eq_error herror
      exact nofun
    · intro _
      exact Except.FailsWith.pure _

theorem seedKey_notDenied (registry : ConfigSchemaRegistry F) (config : ResolvedConfig F)
    (key : ConfigKey) : Except.FailsWith NotDenied (seedKey registry config key) := by
  rw [seedKey]
  cases seedDefault registry key with
  | none => exact Except.FailsWith.pure _
  | some row =>
    cases hparse : parseRegistryDefault row.1 row.2 with
    | none =>
      intro error herror key scope heq
      simp only [hparse] at herror
      cases herror
      cases heq
    | some value =>
      simp only [hparse]
      apply Except.FailsWith.bind
      · exact validateExtension_notDenied registry key value
      · intro _
        exact Except.FailsWith.pure _

/-- Resolving a config whose only applicable statement is one key fails at the
gate exactly when the canonical spelling is not admitted. -/
theorem denied_iff [DecidableEq F] {registry : ConfigSchemaRegistry F} {authored : ScopedConfig F}
    {target : ResolutionTarget F} {scope : ConfigScope} {key : ConfigKey} {value : ConfigValue F}
    (hrows : ∀ row ∈ applicableScopes authored target,
      row.2 = none ∨ row = (scope, some (ScopeDelta.single key value)))
    (happlies : (scope, some (ScopeDelta.single key value)) ∈ applicableScopes authored target)
    (expansion : ExpansionContext F) :
    resolveScopeStack registry authored target expansion =
        .error (.scopeDenied (canonicalConfigKey key) scope) ↔
      canonicalConfigKey key ∉ registry.admissionSet scope := by
  have hsingle : ∀ config, applyDelta registry config scope (some (ScopeDelta.single key value)) =
      if canonicalConfigKey key ∈ registry.admissionSet scope then
        applyValue registry config (key, value)
      else .error (.scopeDenied (canonicalConfigKey key) scope) := by
    intro config
    simp only [applyDelta, aliasConflict_single, firstDenied_single, ScopeDelta.toList_single]
    by_cases hmem : canonicalConfigKey key ∈ registry.admissionSet scope
    · simp [hmem]
    · simp [hmem]
  rw [resolveScopeStack, mergeScopeStack_eq]
  constructor
  · intro hresolve hmem
    -- An admitted key never meets the gate again, and nothing else denies.
    refine Except.FailsWith.bind (P := NotDenied) (Except.FailsWith.bind ?_ fun config => ?_)
      (fun config => ?_) _ hresolve (canonicalConfigKey key) scope rfl
    · refine Except.FailsWith.foldlM (fun row hrow config => ?_) _
      rcases hrows row hrow with hnone | rfl
      · rw [hnone]
        exact Except.FailsWith.pure config
      · rw [hsingle, if_pos hmem]
        exact applyValue_notDenied registry config _
    · exact Except.FailsWith.foldlM (fun seeded _ config => seedKey_notDenied registry config seeded) _
    · intro error herror key scope heq
      obtain ⟨inner, -, rfl⟩ := Except.of_mapError_eq_error herror
      cases heq
  · intro hmem
    have hstack : ∀ (rows : List (ConfigScope × Option (ScopeDelta F))) (config : ResolvedConfig F),
        (∀ row ∈ rows, row.2 = none ∨ row = (scope, some (ScopeDelta.single key value))) →
        (scope, some (ScopeDelta.single key value)) ∈ rows →
        rows.foldlM (fun config row => applyDelta registry config row.1 row.2) config =
          .error (.scopeDenied (canonicalConfigKey key) scope) := by
      intro rows config hall hin
      induction rows with
      | nil => cases hin
      | cons row rest ih =>
        rw [List.foldlM_cons]
        rcases hall row List.mem_cons_self with hnone | rfl
        · have hrest : (scope, some (ScopeDelta.single key value)) ∈ rest := by
            rcases List.mem_cons.mp hin with rfl | hin
            · cases hnone
            · exact hin
          rw [hnone]
          exact ih (fun row hrow => hall row (List.mem_cons_of_mem _ hrow)) hrest
        · rw [hsingle, if_neg hmem]
          rfl
    rw [hstack _ _ hrows happlies]
    rfl

end Resolution

/-! ### What an ingestor retains -/

section Ingestion

variable [Floats F]

/-- A call on an ingestor. -/
inductive IngestCall (F : Type) where
  | flat (values : BTreeMap ConfigKey (ConfigValue F))
  | delta (scope : ConfigScope) (values : BTreeMap ConfigKey (ConfigValue F))
  | layerRanges (inputs : List (LayerRangeInput F))

/-- The accepted calls on an ingestor. -/
def ingestion [DecidableEq F] (registry : ConfigSchemaRegistry F) (tolerant : Bool) :
    Machine (ConfigIngestor F) (IngestCall F) Unit where
  initial := .withMode registry tolerant
  step ingestor call :=
    let after := match call with
      | .flat values => (ingestor.ingestFlat values).toOption
      | .delta scope values => (ingestor.ingestDelta scope values).toOption
      | .layerRanges inputs => (ingestor.ingestLayerRanges inputs).toOption
    after.map fun ingestor => (ingestor, ())

/-- `Retained ingestor only scope key`: the ingestor retains a value of `key` at
`scope`, and `only` is its config cut down to that one statement. -/
inductive Retained (ingestor : ConfigIngestor F) : ScopedConfig F → ConfigScope → ConfigKey → Prop
  | delta {scope : ConfigScope} {delta : ScopeDelta F} {key : ConfigKey} {value : ConfigValue F} :
      ingestor.deltas[scope]? = some delta → delta.values[key]? = some value →
      Retained ingestor
        { deltas := (∅ : BTreeMap ConfigScope (ScopeDelta F)).insert scope (.single key value) }
        scope key
  | range {objectId : ObjectId} {ranges : List (LayerConfigRange F)} {range : LayerConfigRange F}
      {key : ConfigKey} {value : ConfigValue F} :
      ingestor.layerRanges[objectId]? = some ranges → range ∈ ranges →
      range.delta.values[key]? = some value →
      Retained ingestor
        { layerRanges := (∅ : BTreeMap ObjectId (List (LayerConfigRange F))).insert objectId
            [{ range with delta := .single key value }] }
        range.scope key

variable {ingestor : ConfigIngestor F} {key : ConfigKey} {scope : ConfigScope}
  {authored : ConfigValue F} {entry : RegistryEntry F} {pending : PendingEntry F}
  {registry : ConfigSchemaRegistry F}

/-- All a single statement puts on the stack of any target is itself. -/
theorem Retained.rows {only : ScopedConfig F} (h : Retained ingestor only scope key) :
    ∃ value, ∀ target, ∀ row ∈ applicableScopes only target,
      row.2 = none ∨ row = (scope, some (.single key value)) := by
  cases h with
  | @delta _ delta _ value hdelta hvalue =>
    refine ⟨value, fun target row hrow => ?_⟩
    have hat : ∀ other : ConfigScope,
        ((∅ : BTreeMap ConfigScope (ScopeDelta F)).insert scope (.single key value))[other]? = none ∨
          (other, ((∅ : BTreeMap ConfigScope (ScopeDelta F)).insert scope
            (.single key value))[other]?) = (scope, some (.single key value)) := by
      intro other
      by_cases hother : scope = other
      · subst hother
        exact Or.inr (by rw [ExtTreeMap.getElem?_insert_self])
      · exact Or.inl (by rw [BTreeMap.getElem?_insert_of_ne hother]; simp)
    cases hz : target.layerTopZ <;>
      simp only [applicableScopes, ScopedConfig.delta, ScopedConfig.rangesFor, hz,
        ExtTreeMap.getElem?_empty, Option.getD_none, List.filter_nil, List.map_nil, List.append_nil,
        List.mem_append, List.mem_cons, List.not_mem_nil, or_false, List.mem_map] at hrow
    all_goals
      rcases hrow with (((rfl | rfl) | ⟨_, -, rfl⟩) | ⟨_, -, rfl⟩) | ⟨_, -, rfl⟩ <;> exact hat _
  | @range objectId ranges range _ value hranges hmem hvalue =>
    refine ⟨value, fun target row hrow => ?_⟩
    have hfor : ∀ other : ObjectId, ∀ found ∈
        ((∅ : BTreeMap ObjectId (List (LayerConfigRange F))).insert objectId
          [{ range with delta := .single key value }])[other]?.getD [],
        found.scope = range.scope ∧ found.delta = .single key value := by
      intro other found hfound
      by_cases hother : objectId = other
      · subst hother
        rw [ExtTreeMap.getElem?_insert_self] at hfound
        cases List.mem_singleton.mp hfound
        exact ⟨rfl, rfl⟩
      · rw [BTreeMap.getElem?_insert_of_ne hother] at hfound
        simp at hfound
    cases hz : target.layerTopZ with
    | none =>
      simp only [applicableScopes, ScopedConfig.delta, hz, ExtTreeMap.getElem?_empty,
        List.append_nil, List.mem_append, List.mem_cons, List.not_mem_nil, or_false,
        List.mem_map] at hrow
      rcases hrow with (((rfl | rfl) | ⟨_, -, rfl⟩) | ⟨_, -, rfl⟩) | ⟨_, -, rfl⟩ <;> exact Or.inl rfl
    | some layerTopZ =>
      simp only [applicableScopes, ScopedConfig.delta, ScopedConfig.rangesFor, hz,
        ExtTreeMap.getElem?_empty, List.mem_append, List.mem_cons, List.not_mem_nil, or_false,
        List.mem_map, List.mem_filter] at hrow
      rcases hrow with ((((rfl | rfl) | ⟨found, ⟨hfound, -⟩, rfl⟩) | ⟨_, -, rfl⟩) | ⟨_, -, rfl⟩) |
        ⟨_, -, rfl⟩
      · exact Or.inl rfl
      · exact Or.inl rfl
      · obtain ⟨hscope, hdelta⟩ := hfor target.objectId found hfound
        exact Or.inr (by rw [hscope, hdelta])
      · exact Or.inl rfl
      · exact Or.inl rfl
      · exact Or.inl rfl

/-- Every key a delta states has a typing entry. -/
def ScopeDelta.Typed (registry : ConfigSchemaRegistry F) (delta : ScopeDelta F) : Prop :=
  ∀ (key : ConfigKey) (value : ConfigValue F), delta.values[key]? = some value →
    ∃ entry, typingEntry registry key = some entry

/-- Everything an ingestor retains was typed by its registry. -/
structure ConfigIngestor.Typed (registry : ConfigSchemaRegistry F) (ingestor : ConfigIngestor F) :
    Prop where
  registry_eq : ingestor.registry = registry
  deltas : ∀ (scope : ConfigScope) (delta : ScopeDelta F),
    ingestor.deltas[scope]? = some delta → delta.Typed registry
  ranges : ∀ (objectId : ObjectId) (ranges : List (LayerConfigRange F)),
    ingestor.layerRanges[objectId]? = some ranges → ∀ range ∈ ranges, range.delta.Typed registry

/-- The entry prepared for a key retains a value only under a typing entry. -/
def PendingEntry.Typed (registry : ConfigSchemaRegistry F) (pending : PendingEntry F) : Prop :=
  pending.value.isSome → ∃ entry, typingEntry registry pending.key = some entry

theorem prepareEntry_of_typed {wireKey : String}
    (hentry : typingEntry ingestor.registry key = some entry)
    (h : ingestor.prepareEntry scope key wireKey authored = .ok pending) :
    ∃ value warning, pending = { scope, key, value := some value, warning } := by
  rw [ConfigIngestor.prepareEntry] at h
  cases hcoerce : coerceValue key authored entry.fieldType with
  | ok value =>
    simp only [hentry, hcoerce] at h
    cases h
    exact ⟨value, none, rfl⟩
  | error error =>
    simp only [hentry, hcoerce] at h
    obtain ⟨typed, -, h⟩ := Except.of_bind_eq_ok h
    cases h
    exact ⟨typed.1, typed.2, rfl⟩

theorem prepareEntry_typed {wireKey : String}
    (h : ingestor.prepareEntry scope key wireKey authored = .ok pending) :
    pending.Typed ingestor.registry := by
  cases hentry : typingEntry ingestor.registry key with
  | none =>
    rw [ConfigIngestor.prepareEntry, hentry] at h
    cases h
    exact nofun
  | some entry =>
    obtain ⟨value, warning, rfl⟩ := prepareEntry_of_typed hentry h
    exact fun _ => ⟨entry, hentry⟩

section

omit [Floats F]

theorem ScopeDelta.Typed.insert {delta : ScopeDelta F} (h : delta.Typed registry)
    (hentry : typingEntry registry key = some entry) (value : ConfigValue F) :
    ScopeDelta.Typed registry { values := delta.values.insert key value } := by
  intro other found hfound
  rcases BTreeMap.getElem?_insert_cases hfound with ⟨rfl, -⟩ | hold
  · exact ⟨entry, hentry⟩
  · exact h other found hold

theorem ConfigIngestor.Typed.commitEntry (h : ingestor.Typed registry)
    (hpending : pending.Typed registry) : (ingestor.commitEntry pending).Typed registry := by
  refine ⟨h.registry_eq, ?_, h.ranges⟩
  intro scope delta hdelta
  rw [ConfigIngestor.commitEntry] at hdelta
  cases hvalue : pending.value with
  | none =>
    simp only [hvalue] at hdelta
    exact h.deltas scope delta hdelta
  | some value =>
    simp only [hvalue] at hdelta
    obtain ⟨entry, hentry⟩ := hpending (by simp [hvalue])
    rcases BTreeMap.getElem?_insert_cases hdelta with ⟨-, rfl⟩ | hold
    · have hstored : (ingestor.deltas[pending.scope]?.getD {}).Typed registry := by
        cases hlookup : ingestor.deltas[pending.scope]? with
        | none =>
          intro key found hfound
          simp at hfound
        | some stored => exact h.deltas pending.scope stored hlookup
      exact hstored.insert hentry value
    · exact h.deltas scope delta hold

theorem ConfigIngestor.Typed.commit (h : ingestor.Typed registry) {pending : List (PendingEntry F)}
    (hpending : ∀ entry ∈ pending, entry.Typed registry) :
    (ingestor.commit pending).Typed registry := by
  have hfold : (pending.foldl ConfigIngestor.commitEntry ingestor).Typed registry := by
    induction pending generalizing ingestor with
    | nil => exact h
    | cons entry rest ih =>
      exact ih (h.commitEntry (hpending entry List.mem_cons_self))
        (fun other hother => hpending other (List.mem_cons_of_mem entry hother))
  exact ⟨hfold.registry_eq, hfold.deltas, hfold.ranges⟩

end

theorem rangeDelta_typed {values : BTreeMap String String} {delta : ScopeDelta F}
    {warnings : List IngestionWarning}
    (h : rangeDelta ingestor scope values = .ok (delta, warnings)) :
    delta.Typed ingestor.registry := by
  obtain ⟨entries, hentries, hpure⟩ := Except.of_bind_eq_ok h
  cases hpure
  have htyped : ∀ entry ∈ entries, entry.Typed ingestor.registry := by
    intro entry hentry
    obtain ⟨row, -, hrow⟩ := Except.of_mapM_eq_ok hentries hentry
    exact prepareEntry_typed hrow
  clear hentries h
  induction entries using List.reverseRecOn with
  | nil => exact fun key value hvalue => by simp at hvalue
  | append_singleton entries entry ih =>
    have hbefore := ih fun other hother => htyped other (List.mem_append_left _ hother)
    rw [List.foldl_concat]
    cases hvalue : entry.value with
    | none => exact hbefore
    | some value =>
      obtain ⟨found, hfound⟩ := htyped entry (List.mem_append_right _ List.mem_cons_self)
        (by simp [hvalue])
      exact hbefore.insert hfound value

theorem prepareRange_typed {objectId : ObjectId} {row : LayerRangeInput F × Nat}
    {pending : PendingLayerRange F} {warnings : List IngestionWarning}
    (h : prepareRange ingestor objectId row = .ok (pending, warnings)) :
    pending.delta.Typed ingestor.registry := by
  rw [prepareRange] at h
  split at h
  · cases h
  · obtain ⟨⟨delta, found⟩, hdelta, h⟩ := Except.of_bind_eq_ok h
    have htyped : delta.Typed ingestor.registry := by
      cases hrange : rangeDelta ingestor (.layerRange objectId row.2) row.1.values with
      | error error =>
        rw [hrange] at hdelta
        cases hdelta
      | ok result =>
        rw [hrange] at hdelta
        cases hdelta
        exact rangeDelta_typed hrange
    simp only at h
    split at h
    · cases h
    · split at h
      · cases h
      · cases h
        exact htyped

theorem prepareObject_typed {row : ObjectId × List (LayerRangeInput F)}
    {result : (ObjectId × List (PendingLayerRange F)) × List IngestionWarning}
    (h : prepareObject ingestor row = .ok result) :
    ∀ pending ∈ result.1.2, pending.delta.Typed ingestor.registry := by
  intro pending hpending
  obtain ⟨ranges, hranges, h⟩ := Except.of_bind_eq_ok h
  cases h
  obtain ⟨⟨found, warnings⟩, hfound, rfl⟩ := List.mem_map.mp hpending
  obtain ⟨input, -, hinput⟩ := Except.of_mapM_eq_ok hranges hfound
  exact prepareRange_typed hinput

theorem ConfigIngestor.Typed.ingestLayerRanges [DecidableEq F] {ingestor' : ConfigIngestor F}
    (h : ingestor.Typed registry) {inputs : List (LayerRangeInput F)}
    (hcall : ingestor.ingestLayerRanges inputs = .ok ingestor') : ingestor'.Typed registry := by
  obtain ⟨prepared, hprepared, hcall⟩ := Except.of_bind_eq_ok hcall
  obtain ⟨-, -, hcall⟩ := Except.of_bind_eq_ok hcall
  obtain ⟨committed, hcommitted, hcall⟩ := Except.of_bind_eq_ok hcall
  cases hcall
  -- A committed range carries the delta it was prepared with.
  have hranges : ∀ row ∈ committed, ∀ range ∈ row.2, range.delta.Typed registry := by
    intro row hrow range hrange
    obtain ⟨⟨objectId, pending⟩, hpending, hnew⟩ := Except.of_mapM_eq_ok hcommitted hrow
    obtain ⟨built, hbuilt, hnew⟩ := Except.of_bind_eq_ok hnew
    cases hnew
    obtain ⟨source, hsource, hconstruct⟩ := Except.of_mapM_eq_ok hbuilt hrange
    have hdelta : range.delta = source.delta := by
      rw [LayerConfigRange.new] at hconstruct
      split at hconstruct
      · cases hconstruct
        rfl
      · cases hconstruct
    rw [ExtTreeMap.mem_toList_iff_getElem?_eq_some] at hpending
    obtain ⟨result, hresult, heq⟩ := List.mem_map.mp (BTreeMap.mem_of_getElem?_ofList hpending)
    obtain ⟨object, -, hobject⟩ := Except.of_mapM_eq_ok hprepared hresult
    rw [hdelta, ← h.registry_eq]
    exact prepareObject_typed hobject source (by rw [heq]; exact hsource)
  refine ⟨h.registry_eq, h.deltas, ?_⟩
  intro objectId ranges hlookup
  rcases BTreeMap.getElem?_foldl_insert_cases hlookup with hnew | hold
  · exact hranges _ hnew
  · exact h.ranges objectId ranges hold

/-- Whatever the calls, everything retained was typed. -/
theorem run_typed [DecidableEq F] {tolerant : Bool}
    {trace : List (Event (ConfigIngestor F) (IngestCall F) Unit)}
    (run : (ingestion registry tolerant).Run trace ingestor) : ingestor.Typed registry := by
  refine Machine.Run.invariant (P := fun _ ingestor => ingestor.Typed registry) ?_ ?_ run
  · exact ⟨rfl, fun scope delta h => by simp [ingestion, ConfigIngestor.withMode] at h,
      fun objectId ranges h => by simp [ingestion, ConfigIngestor.withMode] at h⟩
  · rintro trace before call after ⟨⟩ - htyped hstep
    obtain ⟨result, hresult, heq⟩ := Option.map_eq_some_iff.mp hstep
    cases heq
    cases call with
    | flat values =>
      obtain ⟨pending, hpending, hcommit⟩ :=
        Except.of_bind_eq_ok (Except.of_toOption_eq_some hresult)
      cases hcommit
      apply htyped.commit
      intro entry hentry
      obtain ⟨row, -, hrow⟩ := Except.of_mapM_eq_ok hpending hentry
      obtain ⟨decoded, -, hrow⟩ := Except.of_bind_eq_ok hrow
      rw [← htyped.registry_eq]
      exact prepareEntry_typed hrow
    | delta scope values =>
      obtain ⟨pending, hpending, hcommit⟩ :=
        Except.of_bind_eq_ok (Except.of_toOption_eq_some hresult)
      cases hcommit
      apply htyped.commit
      intro entry hentry
      obtain ⟨row, -, hrow⟩ := Except.of_mapM_eq_ok hpending hentry
      rw [← htyped.registry_eq]
      exact prepareEntry_typed hrow
    | layerRanges inputs =>
      exact htyped.ingestLayerRanges (Except.of_toOption_eq_some hresult)

/-! ### The gate of layer ranges -/

/-- The gate of layer ranges decides about a key as its typing entry does: only
a key with an entry of its own can be admitted by it. -/
def RangeGateAgrees (registry : ConfigSchemaRegistry F) (scope : ConfigScope) (key : ConfigKey) :
    Prop :=
  registry.entry key = none →
    ∀ entry, typingEntry registry key = some entry → entry.denies scope = true

omit [Floats F] in
theorem not_mem_admissionSet_iff_rangeGateAgrees (h : typingEntry registry key = some entry) :
    (key ∉ registry.admissionSet scope ↔ entry.denies scope = true) ↔
      RangeGateAgrees registry scope key := by
  rw [ConfigSchemaRegistry.mem_admissionSet]
  cases hexact : registry.entry key with
  | some own =>
    have hown : own = entry := by
      simp only [typingEntry, ConfigSchemaRegistry.entryOrWildcard, hexact, Option.some_or] at h
      exact Option.some.inj h
    subst hown
    constructor
    · intro _ hnone
      rw [hexact] at hnone
      cases hnone
    · intro _
      simp
  | none =>
    constructor
    · intro hgate _ found hfound
      rw [h] at hfound
      cases hfound
      exact hgate.mp (by simp)
    · intro hagree
      simp [hagree hexact entry h]

/-- The input that states one key of one object over one interval. -/
def LayerRangeInput.single (objectId : ObjectId) (minZ maxZ : F) (key text : String) :
    LayerRangeInput F where
  objectId := objectId
  sourceIndex := 0
  minZ := minZ
  maxZ := maxZ
  values := (∅ : BTreeMap String String).insert key text

/-- What `ingestDelta` makes of one statement. -/
theorem ingestDelta_single {accepted : ConfigIngestor F}
    (hentry : typingEntry ingestor.registry key = some entry)
    (h : ingestor.ingestDelta scope ((∅ : BTreeMap ConfigKey (ConfigValue F)).insert key authored) =
      .ok accepted) :
    ∃ value warning, ingestor.prepareEntry scope key key authored =
        .ok { scope, key, value := some value, warning } ∧
      (accepted.deltas[scope]?.bind fun delta => delta.values[key]?) = some value := by
  obtain ⟨pending, hpending, hcommit⟩ := Except.of_bind_eq_ok h
  have hlist : ((∅ : BTreeMap ConfigKey (ConfigValue F)).insert key authored).toList =
      [(key, authored)] := ScopeDelta.toList_single key authored
  rw [hlist, List.mapM_cons, List.mapM_nil] at hpending
  obtain ⟨prepared, hprepared, hpending⟩ := Except.of_bind_eq_ok hpending
  cases hpending
  cases hcommit
  obtain ⟨value, warning, rfl⟩ := prepareEntry_of_typed hentry hprepared
  refine ⟨value, warning, hprepared, ?_⟩
  simp [ConfigIngestor.commit, ConfigIngestor.commitEntry]

/-- The overlap check reports overlaps only. -/
theorem validateLayerRangeOverlaps_error [DecidableEq F]
    {pending : BTreeMap ObjectId (List (PendingLayerRange F))} {error : LayerRangeLoadError F}
    (h : validateLayerRangeOverlaps pending = .error error) :
    ∃ objectId key first second, error = .conflictingOverlap objectId key first second := by
  rw [validateLayerRangeOverlaps] at h
  split at h
  · rename_i found hfound
    cases h
    obtain ⟨⟨objectId, ranges⟩, -, hfound⟩ := List.exists_of_findSome?_eq_some hfound
    obtain ⟨⟨first, second⟩, -, hfound⟩ := List.exists_of_findSome?_eq_some hfound
    simp only at hfound
    split at hfound
    · obtain ⟨key, -, rfl⟩ := Option.map_eq_some_iff.mp hfound
      exact ⟨objectId, key, first.rangeIndex, second.rangeIndex, rfl⟩
    · cases hfound
  · cases h

/-- Loading one statement as a layer range is denied exactly when its spelling
has no admitting entry of its own. -/
theorem range_denied_iff [DecidableEq F] {objectId : ObjectId} {minZ maxZ : F} {key text : String}
    {value : ConfigValue F} {warning : Option IngestionWarning}
    (hinterval : validLayerRangeInterval minZ maxZ = true)
    (hprepare : ingestor.prepareEntry (.layerRange objectId 0) key key (.string text) =
      .ok { scope := .layerRange objectId 0, key, value := some value, warning })
    (hheight : invalidLayerHeight (.single key value) = none) :
    ingestor.ingestLayerRanges [.single objectId minZ maxZ key text] =
        .error (.denied (.scopeDenied key (.layerRange objectId 0))) ↔
      key ∉ ingestor.registry.admissionSet (.layerRange objectId 0) := by
  have hlist : ((∅ : BTreeMap String String).insert key text).toList = [(key, text)] :=
    List.perm_singleton.mp (BTreeMap.toList_insert_perm (by simp) text)
  have hdelta : rangeDelta ingestor (.layerRange objectId 0)
      ((∅ : BTreeMap String String).insert key text) =
        .ok (.single key value, warning.toList) := by
    cases warning <;> simp [rangeDelta, hlist, hprepare, ScopeDelta.single]
  have hgroup : (groupRanges [LayerRangeInput.single objectId minZ maxZ key text]).toList =
      [(objectId, [.single objectId minZ maxZ key text])] := by
    have : groupRanges [LayerRangeInput.single objectId minZ maxZ key text] =
        (∅ : BTreeMap ObjectId (List (LayerRangeInput F))).insert objectId
          [.single objectId minZ maxZ key text] := by
      simp [groupRanges, LayerRangeInput.single]
    rw [this]
    exact List.perm_singleton.mp (BTreeMap.toList_insert_perm (by simp) _)
  have hrange : prepareRange ingestor objectId (.single objectId minZ maxZ key text, 0) =
      if key ∈ ingestor.registry.admissionSet (.layerRange objectId 0) then
        .ok ({ rangeIndex := 0, minZ, maxZ, delta := .single key value }, warning.toList)
      else .error (.denied (.scopeDenied key (.layerRange objectId 0))) := by
    rw [prepareRange]
    simp only [LayerRangeInput.single, hinterval, hdelta, Bool.not_true, Bool.false_eq_true,
      if_false, Except.mapError]
    by_cases hmem : key ∈ ingestor.registry.admissionSet (.layerRange objectId 0)
    · simp only [bind, Except.bind, hheight, ScopeDelta.keys_single, List.find?_cons, hmem,
        not_true_eq_false, decide_false, List.find?_nil, if_true]
      rfl
    · simp only [bind, Except.bind, hheight, ScopeDelta.keys_single, List.find?_cons, hmem,
        not_false_eq_true, decide_true, if_false]
  have hobject : prepareObject ingestor (objectId, [.single objectId minZ maxZ key text]) =
      (prepareRange ingestor objectId (.single objectId minZ maxZ key text, 0)).map
        fun row => ((objectId, [row.1]), row.2) := by
    cases hrow : prepareRange ingestor objectId (.single objectId minZ maxZ key text, 0) <;>
      simp [prepareObject, hrow, Except.map]
  constructor
  · intro hload hmem
    -- Past the gate, loading only fails on an overlap or on an interval.
    refine Except.FailsWith.bind
      (P := fun error => error ≠ .denied (.scopeDenied key (.layerRange objectId 0)))
      ?_ (fun prepared => Except.FailsWith.bind ?_ fun _ => Except.FailsWith.bind ?_ fun _ => ?_)
      _ hload rfl
    · rw [hgroup]
      apply Except.FailsWith.mapM
      intro row hrow
      rw [List.mem_singleton.mp hrow, hobject, hrange, if_pos hmem]
      exact Except.FailsWith.pure _
    · intro error herror
      obtain ⟨objectId', key', first, second, rfl⟩ := validateLayerRangeOverlaps_error herror
      exact nofun
    · apply Except.FailsWith.mapM
      rintro ⟨objectId', ranges⟩ -
      apply Except.FailsWith.bind
      · apply Except.FailsWith.mapM
        intro range _ error herror
        rw [LayerConfigRange.new] at herror
        split at herror
        · cases herror
        · cases herror
          exact nofun
      · intro _
        exact Except.FailsWith.pure _
    · exact Except.FailsWith.pure _
  · intro hmem
    rw [ConfigIngestor.ingestLayerRanges, hgroup, List.mapM_cons, hobject, hrange, if_neg hmem]
    rfl

/-! ### Where the lookups agree -/

/-- Ingestion and resolution agree about a retained key exactly when the two
spellings do, and the gate of layer ranges agrees with `ingestDelta` exactly
when the key has an entry of its own or its typing entry denies layer ranges. -/
theorem scope_admission_agrees_iff [DecidableEq F] {registry : ConfigSchemaRegistry F}
    {tolerant : Bool} {trace : List (Event (ConfigIngestor F) (IngestCall F) Unit)}
    {ingestor : ConfigIngestor F} (run : (ingestion registry tolerant).Run trace ingestor) :
    (∀ only scope key, Retained ingestor only scope key →
      ∃ entry, typingEntry registry key = some entry ∧
        ∀ target expansion, (∃ delta, (scope, some delta) ∈ applicableScopes only target) →
          ((resolveScopeStack registry only target expansion =
              .error (.scopeDenied (canonicalConfigKey key) scope) ↔
            entry.denies scope = true) ↔ SpellingsAgree registry scope key)) ∧
    (∀ objectId key text minZ maxZ accepted value entry,
      ingestor.ingestDelta (.layerRange objectId 0)
          ((∅ : BTreeMap ConfigKey (ConfigValue F)).insert key (.string text)) = .ok accepted →
      typingEntry registry key = some entry →
      (accepted.deltas[ConfigScope.layerRange objectId 0]?.bind
        fun delta => delta.values[key]?) = some value →
      validLayerRangeInterval minZ maxZ = true → invalidLayerHeight (.single key value) = none →
      ((ingestor.ingestLayerRanges [.single objectId minZ maxZ key text] =
          .error (.denied (.scopeDenied key (.layerRange objectId 0))) ↔
        entry.denies (.layerRange objectId 0) = true) ↔
        RangeGateAgrees registry (.layerRange objectId 0) key)) := by
  have htyped : ingestor.Typed registry := run_typed run
  constructor
  · intro only scope key hretained
    have hentry : ∃ entry, typingEntry registry key = some entry := by
      cases hretained with
      | delta hdelta hvalue => exact htyped.deltas _ _ hdelta _ _ hvalue
      | range hranges hmem hvalue => exact htyped.ranges _ _ hranges _ hmem _ _ hvalue
    obtain ⟨entry, hentry⟩ := hentry
    refine ⟨entry, hentry, fun target expansion ⟨delta, happlies⟩ => ?_⟩
    obtain ⟨value, hrows⟩ := hretained.rows
    rcases hrows target _ happlies with hnone | hrow
    · cases hnone
    · cases hrow
      rw [denied_iff (hrows target) happlies expansion]
      exact admitted_iff_spellingsAgree hentry
  · intro objectId key text minZ maxZ accepted value entry hcall hentry hvalue hinterval hheight
    rw [← htyped.registry_eq] at hentry
    obtain ⟨value', warning, hprepare, hstored⟩ := ingestDelta_single hentry hcall
    rw [hvalue] at hstored
    cases hstored
    rw [range_denied_iff hinterval hprepare hheight, ← htyped.registry_eq]
    exact not_mem_admissionSet_iff_rangeGateAgrees hentry

end Ingestion

/-! ### A key typed through a wildcard -/

/-- A flat config that states the height of one object. -/
def heightValues : BTreeMap ConfigKey (ConfigValue ℚ) :=
  ExtTreeMap.ofList [("object_height:cube", .float 20)] compare

/-- The ingestor that accepted it. -/
def heightIngestor : ConfigIngestor ℚ :=
  match (ConfigIngestor.withMode raftRegistry false).ingestFlat heightValues with
  | .ok ingestor => ingestor
  | .error _ => .withMode raftRegistry false

theorem heightIngestor_run :
    (ingestion raftRegistry false).Run
      [⟨.withMode raftRegistry false, .flat heightValues, (), heightIngestor⟩] heightIngestor := by
  have hok : ((ConfigIngestor.withMode raftRegistry false).ingestFlat heightValues).isOk = true := by
    decide +kernel
  refine Machine.Run.step Machine.Run.start ?_
  cases hcall : (ConfigIngestor.withMode raftRegistry false).ingestFlat heightValues with
  | error error =>
    rw [hcall] at hok
    cases hok
  | ok ingestor =>
    simp only [ingestion, heightIngestor, hcall]
    rfl

/-- The config that states nothing but the height. -/
def heightOnly : ScopedConfig ℚ where
  deltas := (∅ : BTreeMap ConfigScope (ScopeDelta ℚ)).insert .global
    (.single "object_height:cube" (.float 20))

theorem heightIngestor_retains :
    Retained heightIngestor heightOnly .global "object_height:cube" := by
  have hvalue : ((heightIngestor.deltas[ConfigScope.global]?).bind fun delta =>
      delta.values["object_height:cube"]?) = some (.float 20) := by
    decide +kernel
  obtain ⟨delta, hdelta, hvalue⟩ := Option.bind_eq_some_iff.mp hvalue
  exact Retained.delta hdelta hvalue

/-- The declared wildcard types the key and denies nothing, yet every
resolution of the key it admitted fails at the gate. -/
theorem wildcard_key_denied :
    (∃ trace, (ingestion raftRegistry false).Run trace heightIngestor) ∧
      Retained heightIngestor heightOnly .global "object_height:cube" ∧
      (typingEntry raftRegistry "object_height:cube").map (fun entry => entry.denies .global) =
        some false ∧
      resolveScopeStack raftRegistry heightOnly {} { nozzleDiameterMm := 2 / 5 } =
        .error (.scopeDenied "object_height:cube" .global) := by
  refine ⟨⟨_, heightIngestor_run⟩, heightIngestor_retains, by decide +kernel, ?_⟩
  obtain ⟨value, hrows⟩ := heightIngestor_retains.rows
  have happlies : (ConfigScope.global, some (ScopeDelta.single "object_height:cube" (.float 20))) ∈
      applicableScopes heightOnly {} := by
    simp [applicableScopes, heightOnly, ScopedConfig.delta]
  rcases hrows {} _ happlies with hnone | hrow
  · cases hnone
  · rw [hrow] at happlies
    exact (denied_iff (hrows {}) happlies _).mpr (by decide +kernel)

/-- The key is outside the condition, and a key with an entry of its own is
inside it. -/
theorem scope_admission_agrees_iff_height :
    (∃ entry, typingEntry raftRegistry "object_height:cube" = some entry ∧
      ((resolveScopeStack raftRegistry heightOnly {} { nozzleDiameterMm := 2 / 5 } =
          .error (.scopeDenied "object_height:cube" .global) ↔ entry.denies .global = true) ↔
        SpellingsAgree raftRegistry .global "object_height:cube")) ∧
      ¬ SpellingsAgree raftRegistry .global "object_height:cube" ∧
      SpellingsAgree raftRegistry .global "support_raft_layers" := by
  have hcanonical : canonicalConfigKey "object_height:cube" = "object_height:cube" := by decide
  refine ⟨?_, ?_, ?_⟩
  · obtain ⟨entry, hentry, hagree⟩ := (scope_admission_agrees_iff heightIngestor_run).1 heightOnly
      .global "object_height:cube" heightIngestor_retains
    have h := hagree {} { nozzleDiameterMm := 2 / 5 }
      ⟨.single "object_height:cube" (.float 20),
        by simp [applicableScopes, heightOnly, ScopedConfig.delta]⟩
    rw [hcanonical] at h
    exact ⟨entry, hentry, h⟩
  · intro hagree
    have hadmits : (raftRegistry.wildcard "object_height:cube").map
        (fun entry => entry.denies .global) = some false := by
      decide +kernel
    obtain ⟨entry, hentry, hadmits⟩ := Option.map_eq_some_iff.mp hadmits
    have hnone : (raftRegistry.entry "object_height:cube").isNone = true := by decide +kernel
    rw [hagree.wildcard (Option.isNone_iff_eq_none.mp hnone) hcanonical entry hentry] at hadmits
    cases hadmits
  · have hsome : (raftRegistry.entry "support_raft_layers").isNone = false := by decide +kernel
    constructor
    · intro hnone
      rw [hnone] at hsome
      cases hsome
    · intro hne
      exact absurd (by decide) hne

end PinchNPrint.Config
