/-
Scope precedence.

`applicableScopes` is what the stack means: the scopes of a target from the
weakest to the strongest, each with the delta authored at it.
`mergeScopeStack_eq` says that resolution applies exactly this list. Each delta
overwrites what it states (`applyDelta_extension`) and seeding only fills what
nobody stated (`seedRegistryDefaults_extension`), so the extension of a key is
what the last scope that states it says, and its registry default otherwise.
-/

import PinchNPrint.Config.Resolution

namespace PinchNPrint.Config

open Std

variable {F : Type} [Floats F]

/-- The value a delta states for a key, under whatever spelling. -/
def ScopeDelta.stated (delta : ScopeDelta F) (key : ConfigKey) : Option (ConfigValue F) :=
  (delta.values.toList.filterMap fun row =>
    if canonicalConfigKey row.1 = key then some row.2 else none).getLast?

/-- The scopes that apply to a target, from the weakest to the strongest, with
the delta authored at each. -/
def applicableScopes (authored : ScopedConfig F) (target : ResolutionTarget F) :
    List (ConfigScope × Option (ScopeDelta F)) :=
  let at_ := fun scope => (scope, authored.delta scope)
  let ranges := match target.layerTopZ with
    | some layerTopZ =>
        ((authored.rangesFor target.objectId).filter fun range => range.covers layerTopZ).map
          fun range => (range.scope, some range.delta)
    | none => []
  [at_ .global, at_ (.object target.objectId)] ++ ranges ++
    target.modifierIds.map (fun modifierId => at_ (.modifier target.objectId modifierId)) ++
    (sortDedup target.paintSemantics).map (fun semantic => at_ (.paintSemantic semantic)) ++
    target.toolIndex.toList.map (fun index => at_ (.tool index))

/-- What the last applicable scope that states a key says. -/
def lastStated (authored : ScopedConfig F) (target : ResolutionTarget F) (key : ConfigKey) :
    Option (ConfigValue F) :=
  ((applicableScopes authored target).filterMap fun row =>
    row.2.bind fun delta => delta.stated key).getLast?

/-- The parsed registry default a key is seeded with. -/
def seededDefault (registry : ConfigSchemaRegistry F) (key : ConfigKey) :
    Option (ConfigValue F) :=
  (seedDefault registry key).bind fun (entry, default) => parseRegistryDefault entry default

/-- The scope is one a target reads its delta from. Layer ranges are read from
the ranges of the object instead. -/
def ResolutionTarget.Reads (target : ResolutionTarget F) : ConfigScope → Prop
  | .global => True
  | .object objectId => objectId = target.objectId
  | .layerRange _ _ => False
  | .modifier objectId modifierId => objectId = target.objectId ∧ modifierId ∈ target.modifierIds
  | .paintSemantic semantic => semantic ∈ target.paintSemantics
  | .tool index => target.toolIndex = some index

/-- Two authored configs agree on everything that applies to a target. -/
structure AgreeOn (target : ResolutionTarget F) (first second : ScopedConfig F) : Prop where
  deltas : ∀ scope, target.Reads scope → first.delta scope = second.delta scope
  ranges : ∀ layerTopZ, target.layerTopZ = some layerTopZ →
    (first.rangesFor target.objectId).filter (fun range => range.covers layerTopZ) =
      (second.rangesFor target.objectId).filter (fun range => range.covers layerTopZ)

/-! ### The stack as a list -/

theorem mergeScopeStack_eq (registry : ConfigSchemaRegistry F) (authored : ScopedConfig F)
    (target : ResolutionTarget F) :
    mergeScopeStack registry authored target = (do
      let config ← (applicableScopes authored target).foldlM
        (fun config row => applyDelta registry config row.1 row.2) ResolvedConfig.default
      seedRegistryDefaults registry config) := by
  cases hz : target.layerTopZ <;> cases htool : target.toolIndex <;>
    simp [mergeScopeStack, applicableScopes, hz, htool, ScopedConfig.global, List.foldlM_append,
      List.foldlM_filter, List.foldlM_map]

/-- What applies to a target is all that its stack is made of. -/
theorem AgreeOn.applicableScopes {target : ResolutionTarget F} {first second : ScopedConfig F}
    (agree : AgreeOn target first second) :
    applicableScopes first target = applicableScopes second target := by
  have hglobal := agree.deltas .global trivial
  have hobject := agree.deltas (.object target.objectId) rfl
  have hmodifiers : target.modifierIds.map (fun modifierId =>
        (ConfigScope.modifier target.objectId modifierId,
          first.delta (.modifier target.objectId modifierId))) =
      target.modifierIds.map (fun modifierId =>
        (ConfigScope.modifier target.objectId modifierId,
          second.delta (.modifier target.objectId modifierId))) := by
    refine List.map_congr_left fun modifierId hmodifier => ?_
    rw [agree.deltas (.modifier target.objectId modifierId) ⟨rfl, hmodifier⟩]
  have hpaint : (sortDedup target.paintSemantics).map (fun semantic =>
        (ConfigScope.paintSemantic semantic, first.delta (.paintSemantic semantic))) =
      (sortDedup target.paintSemantics).map (fun semantic =>
        (ConfigScope.paintSemantic semantic, second.delta (.paintSemantic semantic))) := by
    refine List.map_congr_left fun semantic hsemantic => ?_
    rw [sortDedup, ExtTreeSet.mem_toList, BTreeSet.mem_ofList_iff] at hsemantic
    rw [agree.deltas (.paintSemantic semantic) hsemantic]
  have htool : target.toolIndex.toList.map (fun index =>
        (ConfigScope.tool index, first.delta (.tool index))) =
      target.toolIndex.toList.map (fun index =>
        (ConfigScope.tool index, second.delta (.tool index))) := by
    refine List.map_congr_left fun index hindex => ?_
    rw [agree.deltas (.tool index) (Option.mem_toList.mp hindex)]
  simp only [Config.applicableScopes, hglobal, hobject, hmodifiers, hpaint, htool]
  cases hz : target.layerTopZ with
  | none => rfl
  | some layerTopZ => simp only [agree.ranges layerTopZ hz]

/-! ### What each part writes -/

variable {config config' : ResolvedConfig F} {registry : ConfigSchemaRegistry F}

/-- One value of a delta overwrites the extension of its key, unless a typed
field takes it. -/
theorem applyValue_extension {row : ConfigKey × ConfigValue F} (key : ConfigKey)
    (h : applyValue registry config row = .ok config') :
    config'.extensions[key]? =
      (if ResolvedConfig.cliBound F key = false ∧ canonicalConfigKey row.1 = key then some row.2
        else none).or config.extensions[key]? := by
  obtain ⟨-, -, h⟩ := Except.of_bind_eq_ok h
  obtain ⟨⟨matched, updated⟩, happly, h⟩ := Except.of_bind_eq_ok h
  cases hcli : config.applyCliKey (canonicalConfigKey row.1) row.2 with
  | error error =>
    rw [hcli] at happly
    cases happly
  | ok result =>
    rw [hcli] at happly
    cases happly
    obtain ⟨hmatched, hextensions, -⟩ := ResolvedConfig.applyCliKey_eq_ok hcli
    cases h
    by_cases hrow : canonicalConfigKey row.1 = key
    · rw [hrow] at hmatched
      cases matched with
      | true => simp [← hmatched, hextensions]
      | false => simp [← hmatched, hrow]
    · cases matched with
      | true => simp [hrow, hextensions]
      | false => simp [hrow, hextensions, ExtTreeMap.getElem?_insert]

theorem applyDelta_extension {scope : ConfigScope} {delta : Option (ScopeDelta F)} (key : ConfigKey)
    (h : applyDelta registry config scope delta = .ok config') :
    config'.extensions[key]? =
      (if ResolvedConfig.cliBound F key then none else delta.bind fun delta => delta.stated key).or
        config.extensions[key]? := by
  cases delta with
  | none =>
    cases h
    simp
  | some delta =>
    rw [applyDelta] at h
    cases halias : aliasConflict delta with
    | some row =>
      rw [halias] at h
      cases h
    | none =>
      cases hdenied : firstDenied registry scope delta with
      | some denied =>
        rw [halias, hdenied] at h
        cases h
      | none =>
        rw [halias, hdenied] at h
        have hlast := Except.foldlM_last
          (fun config row config' hvalue => applyValue_extension key hvalue) h
        rw [hlast, Option.bind_some, ScopeDelta.stated]
        cases ResolvedConfig.cliBound F key <;> simp

/-- Seeding gives a key its registry default where nobody stated it. -/
theorem seedKey_extension {seeded : ConfigKey} (key : ConfigKey)
    (h : seedKey registry config seeded = .ok config') :
    config'.extensions[key]? = config.extensions[key]?.or
      (if seeded = key then seededDefault registry key else none) := by
  rw [seedKey] at h
  cases hseed : seedDefault registry seeded with
  | none =>
    rw [hseed] at h
    cases h
    by_cases hkey : seeded = key
    · subst hkey
      simp [seededDefault, hseed]
    · simp [hkey]
  | some row =>
    rw [hseed] at h
    cases hparse : parseRegistryDefault row.1 row.2 with
    | none =>
      simp only [hparse] at h
      cases h
    | some value =>
      simp only [hparse] at h
      obtain ⟨-, -, h⟩ := Except.of_bind_eq_ok h
      cases h
      by_cases hkey : seeded = key
      · subst hkey
        have hvalue : seededDefault registry seeded = some value := by
          simp [seededDefault, hseed, hparse]
        by_cases hmem : seeded ∈ config.extensions
        · simp [hmem]
        · simp [hmem, hvalue]
      · by_cases hmem : seeded ∈ config.extensions
        · simp [hmem, hkey]
        · simp [hmem, hkey, ExtTreeMap.getElem?_insert]

theorem seedRegistryDefaults_extension (key : ConfigKey)
    (h : seedRegistryDefaults registry config = .ok config') :
    config'.extensions[key]? = config.extensions[key]?.or (seededDefault registry key) := by
  have hfirst := Except.foldlM_first
    (fun config seeded config' hseed => seedKey_extension key hseed) h
  have hsome : registry.keys.findSome?
      (fun seeded => if seeded = key then seededDefault registry key else none) =
        seededDefault registry key := by
    cases hdefault : seededDefault registry key with
    | none => simp
    | some value =>
      have hmem : key ∈ registry.keys := by
        rw [ConfigSchemaRegistry.keys, ExtTreeMap.mem_keys, BTreeMap.mem_iff_getElem?_isSome]
        cases hentry : registry.entry key with
        | none =>
          rw [seededDefault, seedDefault, hentry] at hdefault
          simp at hdefault
        | some entry => exact ⟨entry, hentry⟩
      obtain ⟨before, after, hsplit⟩ := List.append_of_mem hmem
      rw [hsplit, List.findSome?_append, List.findSome?_cons]
      cases hbefore : before.findSome? (fun seeded => if seeded = key then some value else none) with
      | none => simp
      | some other =>
        obtain ⟨seeded, -, hother⟩ := List.exists_of_findSome?_eq_some hbefore
        by_cases hkey : seeded = key
        · rw [if_pos hkey] at hother
          cases hother
          rfl
        · rw [if_neg hkey] at hother
          cases hother
  rw [hfirst, hsome]

/-- A key that a typed field takes is not seeded. -/
theorem seededDefault_of_cliBound {key : ConfigKey} (h : ResolvedConfig.cliBound F key = true) :
    seededDefault registry key = none := by
  have hcanonical : canonicalConfigKey key = key := by
    cases hfind : CONFIG_KEY_ALIASES.find? fun row => key == row.1 with
    | none => simp only [canonicalConfigKey, hfind]
    | some row =>
      -- No legacy spelling is the key of a typed field.
      have hrow : row ∈ CONFIG_KEY_ALIASES := List.mem_of_find?_eq_some hfind
      obtain rfl : key = row.1 := by simpa using List.find?_some hfind
      simp only [CONFIG_KEY_ALIASES, List.mem_cons, List.not_mem_nil, or_false] at hrow
      rcases hrow with rfl | rfl <;> cases h
  have htyped := ResolvedConfig.mem_typedFieldKeys_of_cliBound h
  rw [seededDefault, seedDefault, hcanonical]
  cases registry.entry key with
  | none => simp
  | some entry => simp [htyped]

theorem mergeScopeStack_extension {authored : ScopedConfig F} {target : ResolutionTarget F}
    {merged : ResolvedConfig F} (key : ConfigKey)
    (h : mergeScopeStack registry authored target = .ok merged) :
    merged.extensions[key]? =
      if ResolvedConfig.cliBound F key then none
      else (lastStated authored target key).or (seededDefault registry key) := by
  rw [mergeScopeStack_eq] at h
  obtain ⟨config, hstack, hseed⟩ := Except.of_bind_eq_ok h
  have hlast := Except.foldlM_last
    (fun config row config' hdelta => applyDelta_extension key hdelta) hstack
  rw [seedRegistryDefaults_extension key hseed, hlast]
  cases hbound : ResolvedConfig.cliBound F key with
  | true => simp [ResolvedConfig.default, seededDefault_of_cliBound hbound]
  | false => simp [ResolvedConfig.default, lastStated]

/-- Just before automatic values are expanded, the extension of every key that
no typed field takes is what the last applicable scope that states it says,
else its parsed registry default, else absent. What inapplicable scopes contain
changes nothing about the result. -/
theorem scope_stack_precedence [DecidableEq F] (registry : ConfigSchemaRegistry F)
    (authored : ScopedConfig F) (target : ResolutionTarget F) (expansion : ExpansionContext F) :
    (∀ resolved, resolveScopeStack registry authored target expansion = .ok resolved →
      ∃ merged, mergeScopeStack registry authored target = .ok merged ∧
        expandAutomaticValues registry merged expansion target.toolIndex = .ok resolved ∧
        ∀ key, merged.extensions[key]? =
          if ResolvedConfig.cliBound F key then none
          else (lastStated authored target key).or (seededDefault registry key)) ∧
    ∀ authored', AgreeOn target authored authored' →
      resolveScopeStack registry authored' target expansion =
        resolveScopeStack registry authored target expansion := by
  constructor
  · intro resolved h
    obtain ⟨merged, hmerged, hexpand⟩ := Except.of_bind_eq_ok h
    refine ⟨merged, hmerged, ?_, fun key => mergeScopeStack_extension key hmerged⟩
    cases hvalues : expandAutomaticValues registry merged expansion target.toolIndex with
    | error error =>
      rw [hvalues] at hexpand
      cases hexpand
    | ok config =>
      rw [hvalues] at hexpand
      cases hexpand
      rfl
  · intro authored' agree
    rw [resolveScopeStack, resolveScopeStack, mergeScopeStack_eq, mergeScopeStack_eq,
      agree.applicableScopes]

/-- The registry of one module. -/
def raftRegistry : ConfigSchemaRegistry ℚ :=
  match assembleRegistry [layerPlanner] {} with
  | .ok outcome => outcome.registry
  | .error _ => default

/-- A delta that states the number of raft layers. -/
def raftLayers (count : Int) : ScopeDelta ℚ where
  values := ExtTreeMap.ofList [("support_raft_layers", .int count)] compare

/-- Raft layers stated globally and for two objects. -/
def raftAuthored : ScopedConfig ℚ where
  deltas := ExtTreeMap.ofList [(.global, raftLayers 1), (.object "cube", raftLayers 3),
    (.object "other", raftLayers 7)] compare

theorem scope_stack_precedence_raft :
    ∃ resolved merged,
      resolveScopeStack raftRegistry raftAuthored { objectId := "cube" }
          { nozzleDiameterMm := 2 / 5 } = .ok resolved ∧
        mergeScopeStack raftRegistry raftAuthored { objectId := "cube" } = .ok merged ∧
        merged.extensions["support_raft_layers"]? = some (.int 3) := by
  have hok : (resolveScopeStack raftRegistry raftAuthored { objectId := "cube" }
      { nozzleDiameterMm := 2 / 5 }).isOk = true := by
    decide +kernel
  cases hresolve : resolveScopeStack raftRegistry raftAuthored { objectId := "cube" }
      { nozzleDiameterMm := 2 / 5 } with
  | error error =>
    rw [hresolve] at hok
    cases hok
  | ok resolved =>
    obtain ⟨merged, hmerged, -, hextensions⟩ :=
      (scope_stack_precedence raftRegistry raftAuthored { objectId := "cube" }
        { nozzleDiameterMm := 2 / 5 }).1 resolved hresolve
    refine ⟨resolved, merged, rfl, hmerged, ?_⟩
    have hstated : lastStated raftAuthored { objectId := "cube" } "support_raft_layers" =
        some (.int 3) := by
      decide +kernel
    have hfree : ResolvedConfig.cliBound ℚ "support_raft_layers" = false := by decide +kernel
    rw [hextensions, hstated, hfree]
    rfl

end PinchNPrint.Config
