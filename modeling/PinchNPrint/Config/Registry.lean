/-
The configuration schema registry and its assembly (`slicer-config`: `lib.rs`).

`assembleRegistry` gathers the declarations of every key, host channels first
and modules in id order, and reconciles each key on its own: types and enum
domains must agree, denied scopes are united, bounds are intersected, and the
default, the metadata and the base key come from the first declaration that may
decide them. The base keys of all entries are checked last.

A `ConfigSchemaRegistry` can only be built by assembly (or be empty), so an
entry sits under its own key; the structure carries that as `keyed`. Because
modules are sorted before anything else happens, the outcome is the same for
every order in which they were loaded (`assembleRegistry_perm`).
-/

import PinchNPrint.Config.Scope

namespace PinchNPrint.Config

open Std

variable {F : Type}

/-! ### Declarations -/

/-- `ConfigFieldEntry`, without the fields only the user interface reads. -/
structure ConfigFieldEntry (F : Type) where
  fieldType : String
  default : Option String := none
  min : Option F := none
  max : Option F := none
  display : Option String := none
  description : Option String := none
  group : Option String := none
  unit : Option String := none
  advanced : Bool := false
  values : Option (List String) := none
  tags : List String := []
  selector : Bool := false
  baseKey : Option String := none
  deniedScopes : List String := []
  omitFromConfigBlock : Bool := false

/-- `ModuleDeclaration`, with the schema's `entries` in place of the schema. -/
structure ModuleDeclaration (F : Type) where
  moduleId : String
  schema : BTreeMap String (ConfigFieldEntry F)
  claimExclusiveGroup : Option String := none

structure ModuleKeyMeta where
  display : Option String
  description : Option String
  group : Option String
  unit : Option String
  tags : List String
  advanced : Bool
deriving DecidableEq

/-- `ModuleKeyMeta::from_field`. -/
def ModuleKeyMeta.fromField (field : ConfigFieldEntry F) : ModuleKeyMeta where
  display := field.display
  description := field.description
  group := field.group
  unit := field.unit
  tags := field.tags
  advanced := field.advanced

/-- `HostKeyMeta`; the defaults are `HostKeyMeta::NONE`. -/
structure HostKeyMeta (F : Type) where
  display : Option String := none
  group : Option String := none
  unit : Option String := none
  description : Option String := none
  min : Option F := none
  max : Option F := none
  values : List String := []
  wireType : Option String := none
  advanced : Bool := false
  omitFromConfigBlock : Bool := false
deriving DecidableEq

/-- `HostConfigKey`, without its preset scope. -/
structure HostConfigKey (F : Type) where
  key : String
  fieldType : String
  default : Option String
  hostMeta : HostKeyMeta F := {}
  deniedScopes : List String := []

/-- `HostRuntimeKey`, without its preset scope. -/
structure HostRuntimeKey (F : Type) where
  key : String
  fieldType : String
  default : Option String
  hostMeta : HostKeyMeta F := {}
  selector : Bool := false
  deniedScopes : List String := []

structure HostChannels (F : Type) where
  hostKeys : List (HostConfigKey F) := []
  speedKeys : List (HostConfigKey F) := []
  runtimeKeys : List (HostRuntimeKey F) := []

structure RegistryEntry (F : Type) where
  key : String
  fieldType : String
  default : Option String
  min : Option F
  max : Option F
  values : Option (List String)
  deniedScopes : List String
  selector : Bool
  omitFromConfigBlock : Bool
  baseKey : Option String
  hostMeta : Option (HostKeyMeta F)
  moduleMeta : Option ModuleKeyMeta
  provenance : List String
deriving DecidableEq

inductive RegistryWarning (F : Type) where
  | claimExclusiveDivergence (key firstModule firstValue secondModule secondValue : String)
  | claimExclusiveBoundsDivergence (key firstModule : String) (firstMin firstMax : Option F)
      (secondModule : String) (secondMin secondMax : Option F)
  | boundsIntersection (key : String) (effectiveMin effectiveMax : Option F)
      (declarers : List String)
  | moduleDefaultForHostKey (key moduleId : String)
deriving DecidableEq

inductive RegistryLoadError where
  | typeDisagreement (key : String) (declarers : List String)
  | enumDomainDisagreement (key : String) (declarers : List String)
  | selectorStatablePerRegion (key : String)
  | baseKeyMissing (key base : String)
  | baseKeyNotPercentCompatible (key base : String)
  | baseKeyCycle (key base : String)
  | unknownDeniedScope (key scope : String)
deriving DecidableEq

/-! ### The registry -/

/-- Whether the entry denies the family of the scope. -/
def RegistryEntry.denies (entry : RegistryEntry F) (scope : ConfigScope) : Bool :=
  entry.deniedScopes.any fun denied => denied == scopeDenialLabel scope

/-- `ConfigSchemaRegistry`: every entry sits under its own key. -/
structure ConfigSchemaRegistry (F : Type) where
  entries : BTreeMap String (RegistryEntry F)
  keyed : ∀ (key : String) (entry : RegistryEntry F), entries[key]? = some entry → entry.key = key

namespace ConfigSchemaRegistry

/-- The derived `Default`. -/
instance : Inhabited (ConfigSchemaRegistry F) where
  default := { entries := ∅, keyed := by simp }

/-- `ConfigSchemaRegistry::entry`. -/
def entry (registry : ConfigSchemaRegistry F) (key : String) : Option (RegistryEntry F) :=
  registry.entries[key]?

/-- `ConfigSchemaRegistry::keys`. -/
def keys (registry : ConfigSchemaRegistry F) : List String :=
  registry.entries.keys

/-- `ConfigSchemaRegistry::admission_set`: the keys statable at a scope. -/
def admissionSet (registry : ConfigSchemaRegistry F) (scope : ConfigScope) : BTreeSet ConfigKey :=
  ExtTreeSet.ofList
    ((registry.entries.vals.filter fun entry => !entry.denies scope).map RegistryEntry.key) compare

/-- The entry under the `prefix:*` key that governs a key `prefix:instance`. -/
def wildcard (registry : ConfigSchemaRegistry F) (key : ConfigKey) : Option (RegistryEntry F) :=
  match Text.rsplitOnce ':' key with
  | some (base, _) => registry.entry (base ++ ":*")
  | none => none

/-- The exact entry, or else the wildcard's. -/
def entryOrWildcard (registry : ConfigSchemaRegistry F) (key : ConfigKey) :
    Option (RegistryEntry F) :=
  (registry.entry key).or (registry.wildcard key)

/-- A key is admitted when its own entry does not deny the scope. -/
theorem mem_admissionSet {registry : ConfigSchemaRegistry F} {scope : ConfigScope}
    {key : ConfigKey} : key ∈ registry.admissionSet scope ↔
      ∃ entry, registry.entry key = some entry ∧ entry.denies scope = false := by
  simp only [admissionSet, BTreeSet.mem_ofList_iff, List.mem_map, List.mem_filter,
    BTreeMap.mem_vals, Bool.not_eq_true']
  constructor
  · rintro ⟨entry, ⟨⟨stored, hstored⟩, hadmits⟩, rfl⟩
    rw [registry.keyed stored entry hstored]
    exact ⟨entry, hstored, hadmits⟩
  · rintro ⟨entry, hentry, hadmits⟩
    exact ⟨entry, ⟨⟨key, hentry⟩, hadmits⟩, registry.keyed key entry hentry⟩

end ConfigSchemaRegistry

/-! ### Assembly -/

def ALLOWED_DENIED_SCOPES : List String :=
  ["global", "object", "layer_range", "modifier", "paint_semantic", "tool"]

def PER_REGION_SCOPES : List String :=
  ["object", "layer_range", "modifier", "paint_semantic", "tool"]

structure Declaration (F : Type) where
  provenance : String
  moduleId : Option String
  claimExclusiveGroup : Option String
  fieldType : String
  default : Option String
  min : Option F
  max : Option F
  values : Option (List String)
  deniedScopes : List String
  selector : Bool
  omitFromConfigBlock : Bool
  baseKey : Option String
  hostMeta : Option (HostKeyMeta F)
  moduleMeta : Option ModuleKeyMeta
  isHost : Bool

def declarationFromHostParts (provenance fieldType : String) (default : Option String)
    (selector : Bool) (hostMeta : HostKeyMeta F) (deniedScopes : List String) : Declaration F :=
  let fieldType := hostMeta.wireType.getD fieldType
  { provenance
    moduleId := none
    claimExclusiveGroup := none
    fieldType
    default
    min := hostMeta.min
    max := hostMeta.max
    values := if fieldType == "enum" || !hostMeta.values.isEmpty then some hostMeta.values else none
    deniedScopes
    selector
    omitFromConfigBlock := hostMeta.omitFromConfigBlock
    baseKey := none
    hostMeta := some hostMeta
    moduleMeta := none
    isHost := true }

def hostDeclaration (row : HostConfigKey F) (provenance : String) : Declaration F :=
  declarationFromHostParts provenance row.fieldType row.default false row.hostMeta row.deniedScopes

def runtimeDeclaration (row : HostRuntimeKey F) : Declaration F :=
  declarationFromHostParts "runtime" row.fieldType row.default row.selector row.hostMeta
    row.deniedScopes

def moduleDeclaration (module : ModuleDeclaration F) (field : ConfigFieldEntry F) :
    Declaration F where
  provenance := module.moduleId
  moduleId := some module.moduleId
  claimExclusiveGroup := module.claimExclusiveGroup
  fieldType := field.fieldType
  default := field.default
  min := field.min
  max := field.max
  values := field.values
  deniedScopes := field.deniedScopes
  selector := field.selector
  omitFromConfigBlock := field.omitFromConfigBlock
  baseKey := field.baseKey
  hostMeta := none
  moduleMeta := some (ModuleKeyMeta.fromField field)
  isHost := false

def addDeclaration (declarations : BTreeMap String (List (Declaration F)))
    (row : String × Declaration F) : BTreeMap String (List (Declaration F)) :=
  declarations.insert row.1 (declarations[row.1]?.getD [] ++ [row.2])

def sortedProvenance (declarations : List (Declaration F)) : List String :=
  sortDedup (declarations.map Declaration.provenance)

/-- `validate_denied_scopes`: the first scope outside the vocabulary. -/
def validateDeniedScopes (key : String) (declarations : List (Declaration F)) :
    Except RegistryLoadError Unit :=
  match (declarations.flatMap Declaration.deniedScopes).find? fun scope =>
      !ALLOWED_DENIED_SCOPES.contains scope with
  | some scope => .error (.unknownDeniedScope key scope)
  | none => .ok ()

def validateSelectors (key : String) (declarations : List (Declaration F)) :
    Except RegistryLoadError Unit :=
  if declarations.any fun declaration => declaration.selector &&
      PER_REGION_SCOPES.any fun scope => !declaration.deniedScopes.contains scope then
    .error (.selectorStatablePerRegion key)
  else .ok ()

def effectiveBound [Floats F] (values : List (Option F)) (maximum : Bool) : Option F :=
  values.reduceOption.foldl (fun current value =>
    match current with
    | none => some value
    | some previous =>
        some (if maximum then Floats.max previous value else Floats.min previous value)) none

/-- The rule `selected_base_key` and `selected_values` share: what the first
host declaration says, or else the first module declaration that says anything. -/
def selected {α : Type} (field : Declaration F → Option α)
    (declarations moduleDeclarations : List (Declaration F)) : Option α :=
  ((declarations.find? Declaration.isHost).bind field).or (moduleDeclarations.findSome? field)

def selectedBaseKey (declarations moduleDeclarations : List (Declaration F)) : Option String :=
  selected Declaration.baseKey declarations moduleDeclarations

def selectedValues (declarations moduleDeclarations : List (Declaration F)) :
    Option (List String) :=
  selected Declaration.values declarations moduleDeclarations

/-- IEEE equality of optional bounds. -/
def sameBound [Floats F] : Option F → Option F → Bool
  | none, none => true
  | some first, some second => Floats.eq first second
  | _, _ => false

/-- The module a declaration is reported under. -/
def Declaration.reporter (declaration : Declaration F) : String :=
  declaration.moduleId.getD declaration.provenance

/-- `claim_exclusive_warnings`, for one pair of module declarations. -/
def claimExclusivePair [Floats F] (key : String) (first second : Declaration F) :
    List (RegistryWarning F) :=
  if first.claimExclusiveGroup.isNone || first.claimExclusiveGroup != second.claimExclusiveGroup
  then []
  else
    let defaults := match first.default, second.default with
      | some firstValue, some secondValue =>
          if firstValue != secondValue then
            [.claimExclusiveDivergence key first.reporter firstValue second.reporter secondValue]
          else []
      | _, _ => []
    let bounds :=
      if !sameBound first.min second.min || !sameBound first.max second.max then
        [.claimExclusiveBoundsDivergence key first.reporter first.min first.max second.reporter
          second.min second.max]
      else []
    defaults ++ bounds

def claimExclusiveWarnings [Floats F] (key : String) (modules : List (Declaration F)) :
    List (RegistryWarning F) :=
  (orderedPairs modules).flatMap fun pair => claimExclusivePair key pair.1 pair.2

/-- The warnings raised for one key whose declarations agree. -/
def reconcileWarnings [Floats F] (key : String) (declarations : List (Declaration F)) :
    List (RegistryWarning F) :=
  let moduleDeclarations := declarations.filter fun declaration => !declaration.isHost
  let intersection :=
    if 1 < declarations.countP fun declaration =>
        declaration.min.isSome || declaration.max.isSome then
      [.boundsIntersection key (effectiveBound (declarations.map Declaration.min) true)
        (effectiveBound (declarations.map Declaration.max) false) (sortedProvenance declarations)]
    else []
  let ineffective :=
    if (declarations.find? Declaration.isHost).isSome then
      (moduleDeclarations.filter fun declaration => declaration.default.isSome).map
        fun declaration => .moduleDefaultForHostKey key declaration.reporter
    else []
  intersection ++ ineffective ++ claimExclusiveWarnings key moduleDeclarations

/-- The reconciled entry for one key whose declarations agree on `fieldType`. -/
def reconcileEntry [Floats F] (key fieldType : String) (declarations : List (Declaration F)) :
    RegistryEntry F :=
  let moduleDeclarations := declarations.filter fun declaration => !declaration.isHost
  let hostDeclaration := declarations.find? Declaration.isHost
  { key
    fieldType
    default := match hostDeclaration with
      | some declaration => declaration.default
      | none => moduleDeclarations.head?.bind Declaration.default
    min := effectiveBound (declarations.map Declaration.min) true
    max := effectiveBound (declarations.map Declaration.max) false
    values := selectedValues declarations moduleDeclarations
    deniedScopes := ALLOWED_DENIED_SCOPES.filter fun scope =>
      declarations.any fun declaration => declaration.deniedScopes.contains scope
    selector := declarations.any Declaration.selector
    omitFromConfigBlock := declarations.any Declaration.omitFromConfigBlock
    baseKey := selectedBaseKey declarations moduleDeclarations
    hostMeta := hostDeclaration.bind Declaration.hostMeta
    moduleMeta := moduleDeclarations.head?.bind Declaration.moduleMeta
    provenance := sortedProvenance declarations }

/-- The check that all declarations of a key have the type of the first one. -/
def checkTypes (key : String) (first : Declaration F) (declarations : List (Declaration F)) :
    Except RegistryLoadError Unit :=
  if declarations.any fun declaration => declaration.fieldType != first.fieldType then
    .error (.typeDisagreement key (sortedProvenance declarations))
  else .ok ()

/-- The check that all declarations of an enum key have the domain of the first. -/
def checkEnumDomain (key : String) (first : Declaration F) (declarations : List (Declaration F)) :
    Except RegistryLoadError Unit :=
  if first.fieldType == "enum" && declarations.any fun declaration =>
      declaration.values != first.values then
    .error (.enumDomainDisagreement key (sortedProvenance declarations))
  else .ok ()

/-- One round of the reconciliation loop: the entries and warnings so far, and
the declarations of the next key. -/
def reconcile [Floats F]
    (state : BTreeMap String (RegistryEntry F) × List (RegistryWarning F))
    (row : String × List (Declaration F)) :
    Except RegistryLoadError (BTreeMap String (RegistryEntry F) × List (RegistryWarning F)) := do
  let (key, declarations) := row
  validateDeniedScopes key declarations
  validateSelectors key declarations
  match declarations.head? with
  | none => return state
  | some firstDeclaration =>
      checkTypes key firstDeclaration declarations
      checkEnumDomain key firstDeclaration declarations
      return (state.1.insert key (reconcileEntry key firstDeclaration.fieldType declarations),
        state.2 ++ reconcileWarnings key declarations)

/-- The base key an entry names. -/
def baseOf (entries : BTreeMap String (RegistryEntry F)) (key : String) : Option String :=
  entries[key]?.bind RegistryEntry.baseKey

/-- The inner loop of `validate_base_keys`: whether the chain of base keys from
`current` comes back to a visited key. Every round but the last visits a further
entry, so `entries.size + 1` rounds decide. -/
def baseChainRepeats (entries : BTreeMap String (RegistryEntry F)) :
    Nat → BTreeSet String → String → Bool
  | 0, _, _ => true
  | rounds + 1, visited, current =>
      if current ∈ visited then true
      else
        match baseOf entries current with
        | none => false
        | some next => baseChainRepeats entries rounds (visited.insert current) next

/-- `validate_base_keys`, first pass, for one entry. -/
def validateBaseKey (entries : BTreeMap String (RegistryEntry F))
    (row : String × RegistryEntry F) : Except RegistryLoadError Unit :=
  match row.2.baseKey with
  | none => .ok ()
  | some base =>
      match entries[base]? with
      | none => .error (.baseKeyMissing row.1 base)
      | some baseEntry =>
          if ["float", "float_or_percent"].contains baseEntry.fieldType then .ok ()
          else .error (.baseKeyNotPercentCompatible row.1 base)

/-- `validate_base_keys`, second pass, for one entry. -/
def validateBaseChain (entries : BTreeMap String (RegistryEntry F))
    (row : String × RegistryEntry F) : Except RegistryLoadError Unit :=
  match row.2.baseKey with
  | none => .ok ()
  | some base =>
      if baseChainRepeats entries (entries.size + 1) (ExtTreeSet.ofList [row.1] compare) base then
        .error (.baseKeyCycle row.1 base)
      else .ok ()

def validateBaseKeys (entries : BTreeMap String (RegistryEntry F)) :
    Except RegistryLoadError Unit := do
  entries.toList.forM (validateBaseKey entries)
  entries.toList.forM (validateBaseChain entries)

/-- Modules in the order of their ids. -/
def sortModules (modules : List (ModuleDeclaration F)) : List (ModuleDeclaration F) :=
  modules.insertionSort fun first second => first.moduleId ≤ second.moduleId

/-- The declarations of every key, in the order in which they were added. -/
def gatherDeclarations (modules : List (ModuleDeclaration F)) (host : HostChannels F) :
    BTreeMap String (List (Declaration F)) :=
  let hostRows := host.hostKeys.map fun row => (row.key, hostDeclaration row "host")
  let speedRows := host.speedKeys.map fun row => (row.key, hostDeclaration row "speed")
  let runtimeRows := host.runtimeKeys.map fun row => (row.key, runtimeDeclaration row)
  let moduleRows := (sortModules modules).flatMap fun module =>
    module.schema.toList.map fun row => (row.1, moduleDeclaration module row.2)
  (hostRows ++ speedRows ++ runtimeRows ++ moduleRows).foldl addDeclaration ∅

/-- The reconciliation loop. -/
def reconcileAll [Floats F] (declarations : BTreeMap String (List (Declaration F))) :
    Except RegistryLoadError (BTreeMap String (RegistryEntry F) × List (RegistryWarning F)) :=
  declarations.toList.foldlM reconcile (∅, [])

/-- A round adds at most the entry of its own key. -/
theorem reconcile_cases [Floats F]
    {state state' : BTreeMap String (RegistryEntry F) × List (RegistryWarning F)}
    {row : String × List (Declaration F)} (h : reconcile state row = .ok state') :
    state' = state ∨ ∃ fieldType, state' =
      (state.1.insert row.1 (reconcileEntry row.1 fieldType row.2),
        state.2 ++ reconcileWarnings row.1 row.2) := by
  obtain ⟨-, -, h⟩ := Except.of_bind_eq_ok h
  obtain ⟨-, -, h⟩ := Except.of_bind_eq_ok h
  cases hhead : row.2.head? with
  | none =>
    rw [hhead] at h
    cases h
    exact Or.inl rfl
  | some first =>
    rw [hhead] at h
    obtain ⟨-, -, h⟩ := Except.of_bind_eq_ok h
    obtain ⟨-, -, h⟩ := Except.of_bind_eq_ok h
    cases h
    exact Or.inr ⟨first.fieldType, rfl⟩

theorem keyed_of_reconcile [Floats F] {rows : List (String × List (Declaration F))}
    {state state' : BTreeMap String (RegistryEntry F) × List (RegistryWarning F)}
    (h : rows.foldlM reconcile state = .ok state')
    (hkeyed : ∀ (key : String) (entry : RegistryEntry F),
      state.1[key]? = some entry → entry.key = key) :
    ∀ (key : String) (entry : RegistryEntry F), state'.1[key]? = some entry → entry.key = key := by
  induction rows generalizing state with
  | nil =>
    cases h
    exact hkeyed
  | cons row rows ih =>
    rw [List.foldlM_cons] at h
    obtain ⟨next, hnext, h⟩ := Except.of_bind_eq_ok h
    apply ih h
    intro key entry hentry
    rcases reconcile_cases hnext with rfl | ⟨fieldType, rfl⟩
    · exact hkeyed key entry hentry
    · rcases BTreeMap.getElem?_insert_cases hentry with ⟨rfl, rfl⟩ | hold
      · rfl
      · exact hkeyed key entry hold

structure AssemblyOutcome (F : Type) where
  registry : ConfigSchemaRegistry F
  warnings : List (RegistryWarning F)

/-- The registry of the gathered declarations. -/
def assembleDeclarations [Floats F] (declarations : BTreeMap String (List (Declaration F))) :
    Except RegistryLoadError (AssemblyOutcome F) :=
  match h : reconcileAll declarations with
  | .error error => .error error
  | .ok (entries, warnings) =>
      (validateBaseKeys entries).map fun _ =>
        { registry := { entries, keyed := keyed_of_reconcile h (by simp) }
          warnings }

def assembleRegistry [Floats F] (modules : List (ModuleDeclaration F)) (host : HostChannels F) :
    Except RegistryLoadError (AssemblyOutcome F) :=
  assembleDeclarations (gatherDeclarations modules host)

/-! ### Load order -/

/-- Sorting by id forgets the order in which modules with distinct ids came. -/
theorem sortModules_perm {modules modules' : List (ModuleDeclaration F)}
    (hperm : modules.Perm modules') (hids : (modules.map ModuleDeclaration.moduleId).Nodup) :
    sortModules modules = sortModules modules' := by
  have hsorted : ∀ l : List (ModuleDeclaration F),
      (sortModules l).Pairwise fun first second => first.moduleId ≤ second.moduleId := by
    intro l
    have : Std.Total fun first second : ModuleDeclaration F => first.moduleId ≤ second.moduleId :=
      ⟨fun first second => le_total first.moduleId second.moduleId⟩
    have : IsTrans (ModuleDeclaration F) fun first second => first.moduleId ≤ second.moduleId :=
      ⟨fun _ _ _ => String.le_trans⟩
    exact List.pairwise_insertionSort _ l
  have hsort := List.perm_insertionSort
    (fun first second : ModuleDeclaration F => first.moduleId ≤ second.moduleId)
  refine List.Perm.eq_of_pairwise ?_ (hsorted modules) (hsorted modules')
    ((hsort modules).trans (hperm.trans (hsort modules').symm))
  intro first second hfirst hsecond hle hge
  exact List.inj_on_of_nodup_map hids ((hsort modules).mem_iff.mp hfirst)
    (hperm.mem_iff.mpr ((hsort modules').mem_iff.mp hsecond)) (String.le_antisymm hle hge)

/-- The order in which modules were loaded changes neither the registry nor the
warnings nor the error. -/
theorem assembly_order_free [Floats F] (host : HostChannels F)
    (modules modules' : List (ModuleDeclaration F)) (hperm : modules.Perm modules')
    (hids : (modules.map ModuleDeclaration.moduleId).Nodup) :
    assembleRegistry modules host = assembleRegistry modules' host := by
  have hgather : gatherDeclarations modules host = gatherDeclarations modules' host := by
    rw [gatherDeclarations, gatherDeclarations, sortModules_perm hperm hids]
  rw [assembleRegistry, assembleRegistry, hgather]

/-- A module that declares a key of its own and a wildcard. -/
def layerPlanner : ModuleDeclaration ℚ where
  moduleId := "com.core.layer-planner-default"
  schema := ExtTreeMap.ofList
    [("support_raft_layers", { fieldType := "int", default := some "0", min := some 0 }),
      ("object_height:*", { fieldType := "float" })] compare

/-- A module that declares the same key with another bound. -/
def traditionalSupport : ModuleDeclaration ℚ where
  moduleId := "com.core.traditional-support"
  schema := ExtTreeMap.ofList
    [("support_raft_layers", { fieldType := "int", default := some "0", max := some 20 })] compare

theorem assembly_order_free_swapped :
    [layerPlanner, traditionalSupport].Perm [traditionalSupport, layerPlanner] ∧
      ([layerPlanner, traditionalSupport].map ModuleDeclaration.moduleId).Nodup ∧
      assembleRegistry [layerPlanner, traditionalSupport] {} =
        assembleRegistry [traditionalSupport, layerPlanner] {} ∧
      (assembleRegistry [layerPlanner, traditionalSupport] {}).isOk = true := by
  have hperm : [layerPlanner, traditionalSupport].Perm [traditionalSupport, layerPlanner] :=
    List.Perm.swap traditionalSupport layerPlanner []
  have hids : ([layerPlanner, traditionalSupport].map ModuleDeclaration.moduleId).Nodup := by
    decide
  exact ⟨hperm, hids, assembly_order_free {} _ _ hperm hids, by decide +kernel⟩

end PinchNPrint.Config
