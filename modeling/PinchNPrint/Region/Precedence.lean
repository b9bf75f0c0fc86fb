/-
Configs of the region map and the precedence of scopes.

With a host map that holds the resolved stack of every target, the config of a
base or painted entry is the stack of its target at the height of the layer. The
config of a modifier child is that stack with the raw fields of its modifiers
written over it, whatever a paint semantic or a tool says.

`region_configs_obey_precedence_iff`: the extensions of all entries are those of
their stacks exactly when the fields that are written are already there.
-/

import PinchNPrint.Config.Precedence
import PinchNPrint.Region.Keys

namespace PinchNPrint.Region

open Config
open Layer (PaintValue RegionKey)

variable {F : Type}

/-! ### Stamping -/

/-- The value that stamping leaves at a key. -/
def lastStamped (modifiers : List (ModifierVolume F)) (key : ConfigKey) :
    Option (ConfigValue F) :=
  ((stampedFields modifiers).filterMap fun field =>
    if field.1 = key then some field.2 else none).getLast?

theorem getElem?_stampSubRegionConfig (config : ResolvedConfig F)
    (modifiers : List (ModifierVolume F)) (key : ConfigKey) :
    (stampSubRegionConfig config modifiers).extensions[key]? =
      (lastStamped modifiers key).or config.extensions[key]? := by
  unfold stampSubRegionConfig lastStamped
  induction stampedFields modifiers generalizing config with
  | nil => rfl
  | cons field fields ih =>
    rw [List.foldl_cons, ih, List.filterMap_cons]
    by_cases hkey : field.1 = key
    · subst hkey
      rw [if_pos rfl, Std.ExtTreeMap.getElem?_insert_self, List.getLast?_cons]
      cases (fields.filterMap fun f => if f.1 = field.1 then some f.2 else none).getLast? with
      | none => rfl
      | some value => rfl
    · rw [if_neg hkey, BTreeMap.getElem?_insert_of_ne hkey]

/-- Stamping changes no extension exactly when all it leaves is already there. -/
theorem stamp_unchanged_iff {config : ResolvedConfig F} {modifiers : List (ModifierVolume F)} :
    (∀ key : ConfigKey, (stampSubRegionConfig config modifiers).extensions[key]? =
      config.extensions[key]?) ↔
      ∀ key value, lastStamped modifiers key = some value → config.extensions[key]? = some value := by
  refine forall_congr' fun key => ?_
  rw [getElem?_stampSubRegionConfig]
  cases lastStamped modifiers key with
  | none => simp
  | some value => simp [eq_comm]

section Precedence

variable [Floats F]

/-! ### Stacks at a height -/

/-- Where no range covers the height, the height does not matter. -/
theorem resolveScopeStack_uncovered [DecidableEq F] {registry : ConfigSchemaRegistry F}
    {authored : ScopedConfig F} {target : ResolutionTarget F} {expansion : ExpansionContext F}
    {layerTopZ : F} (htarget : target.layerTopZ = none)
    (h : (authored.rangesFor target.objectId).any (·.covers layerTopZ) = false) :
    resolveScopeStack registry authored { target with layerTopZ := some layerTopZ } expansion =
      resolveScopeStack registry authored target expansion := by
  have hscopes : applicableScopes authored { target with layerTopZ := some layerTopZ } =
      applicableScopes authored target := by
    have hnone : (authored.rangesFor target.objectId).filter (·.covers layerTopZ) = [] := by
      rw [List.filter_eq_nil_iff]
      exact fun range hrange => by simpa using List.any_eq_false.mp h range hrange
    simp only [applicableScopes, hnone, htarget, List.map_nil]
  rw [resolveScopeStack, resolveScopeStack, mergeScopeStack_eq, mergeScopeStack_eq, hscopes]

/-! ### The tool of a chain -/

/-- The tool of an entry of a chain. -/
def entryTool : String × PaintValue F → Option Nat
  | (semantic, .ToolIndex index) => if semantic == "material" then some index else none
  | _ => none

section

omit [Floats F]

theorem chainTool_eq (chain : VariantChain F) : chainTool chain = chain.findSome? entryTool := by
  unfold chainTool
  congr 1
  funext entry
  obtain ⟨semantic, value⟩ := entry
  cases value <;> rfl

theorem material_of_entryTool {entry : String × PaintValue F} {tool : Nat}
    (h : entryTool entry = some tool) : entry.1 = "material" := by
  obtain ⟨semantic, value⟩ := entry
  cases value with
  | ToolIndex index =>
    rw [entryTool] at h
    split at h
    case isTrue hmaterial => exact eq_of_beq hmaterial
    case isFalse => cases h
  | Flag _ | Scalar _ | Custom _ => cases h

/-- With distinct semantics the first material tool is the last one. -/
theorem lastChainTool_eq {chain : VariantChain F} (h : (chain.map Prod.fst).Nodup) :
    lastChainTool chain = chainTool chain := by
  rw [lastChainTool, chainTool_eq, chainTool_eq]
  induction chain with
  | nil => rfl
  | cons entry chain ih =>
    rw [List.map_cons, List.nodup_cons] at h
    rw [List.reverse_cons, List.findSome?_append, ih h.2, List.findSome?_cons, List.findSome?_cons]
    cases htool : entryTool entry with
    | none => simp
    | some tool =>
      -- the semantic of a tool is not in the rest
      have hrest : chain.findSome? entryTool = none := by
        rw [List.findSome?_eq_none_iff]
        intro other hother
        cases hothertool : entryTool other with
        | none => rfl
        | some tool' =>
          refine absurd (List.mem_map_of_mem hother) (?_ : other.1 ∉ chain.map Prod.fst)
          rw [material_of_entryTool hothertool, ← material_of_entryTool htool]
          exact h.1
      rw [hrest]
      rfl

end

/-! ### Stacks of entries -/

variable [FloatBits F] [DecidableEq F] (input : RegionMappingInput F)
  (authority : RegionResolutionAuthority F)

/-- The target of an entry. -/
def targetOf (region : ActiveRegion F) (modifiers : List (ModifierVolume F))
    (chain : VariantChain F) : ResolutionTarget F :=
  entryTarget region.objectId modifiers chain (chainTool chain)

/-- What `resolve_scope_stack` gives for the target of an entry at its layer. -/
def entryStack (layer : GlobalLayer F) (region : ActiveRegion F)
    (modifiers : List (ModifierVolume F)) (chain : VariantChain F) :
    Except (ResolutionError F) (ResolvedConfig F) :=
  resolveScopeStack authority.registry authority.scopedConfig
    { targetOf region modifiers chain with layerTopZ := some layer.z } authority.expansion

/-- The modifiers of an entry of a region. -/
def EntryModifiers (layer : GlobalLayer F) (region : ActiveRegion F)
    (modifiers : List (ModifierVolume F)) : Prop :=
  modifiers = [] ∨ ∃ group ∈ regionGroups input layer region, modifiers = group.2

/-- The host map holds the resolved stack, without a height, of every target that
the plan has. -/
structure HoldsTargets (host : BTreeMap String (ResolvedConfig F)) : Prop where
  host_eq : input.hostConfig.map Prod.fst = some host
  authority_eq : input.layerRangeAuthority = some authority
  holds : ∀ layer ∈ input.globalLayers, ∀ region ∈ layer.activeRegions,
    ∀ chain, CanonicalChain input region.objectId chain →
    ∀ modifiers, EntryModifiers input layer region modifiers →
      ∃ config, resolvedTargetConfig host (targetOf region modifiers chain) = some config ∧
        resolveScopeStack authority.registry authority.scopedConfig
          (targetOf region modifiers chain) authority.expansion = .ok config

/-- The extensions of the config of an entry are those of its stack. -/
def EntryObeys (map : RegionMapIR F) (layer : GlobalLayer F) (region : ActiveRegion F)
    (modifiers : List (ModifierVolume F)) (chain : VariantChain F) (regionId : Nat) : Prop :=
  ∃ entry ∈ map.entries, entry.1 = entryKey layer region regionId chain ∧
    ∃ config, map.configs[entry.2.config]? = some config ∧
    ∃ resolved, entryStack authority layer region modifiers chain = .ok resolved ∧
      ∀ key : ConfigKey, config.extensions[key]? = resolved.extensions[key]?

/-- The extensions of all entries are those of their stacks. -/
def ObeysPrecedence (map : RegionMapIR F) : Prop :=
  ∀ layer ∈ input.globalLayers, ∀ region ∈ layer.activeRegions,
    ∀ chain, CanonicalChain input region.objectId chain →
      EntryObeys authority map layer region [] chain region.regionId ∧
      ∀ group ∈ regionGroups input layer region, ∀ id, childRegionId region chain group.1 = some id →
        EntryObeys authority map layer region group.2 chain id

/-- What stamping leaves on a modifier child is what its stack has. -/
def StampsResolved : Prop :=
  ∀ layer ∈ input.globalLayers, ∀ region ∈ layer.activeRegions,
    ∀ chain, CanonicalChain input region.objectId chain →
    ∀ group ∈ regionGroups input layer region,
    ∀ resolved, entryStack authority layer region group.2 chain = .ok resolved →
    ∀ key value, lastStamped group.2 key = some value → resolved.extensions[key]? = some value

variable {input authority} {host : BTreeMap String (ResolvedConfig F)} {map : RegionMapIR F}
  {layer : GlobalLayer F} {region : ActiveRegion F} {chain : VariantChain F}

omit [Floats F] [FloatBits F] [DecidableEq F] in
theorem CanonicalChain.lastChainTool (h : CanonicalChain input region.objectId chain) :
    lastChainTool chain = chainTool chain :=
  lastChainTool_eq (h.sublist.nodup (BTreeSet.nodup_toList _))

section

omit [FloatBits F]

/-- The lookup, or the new resolution, is the stack of the entry. -/
theorem HoldsTargets.resolved (h : HoldsTargets input authority host)
    (hlayer : layer ∈ input.globalLayers) (hregion : region ∈ layer.activeRegions)
    (hchain : CanonicalChain input region.objectId chain) {modifiers : List (ModifierVolume F)}
    (hmodifiers : EntryModifiers input layer region modifiers) :
    resolvedTargetConfigForLayer input (targetOf region modifiers chain) layer.z =
      ((entryStack authority layer region modifiers chain).map some).mapError .Resolution := by
  obtain ⟨⟨host', default⟩, hhost, rfl⟩ := Option.map_eq_some_iff.mp h.host_eq
  obtain ⟨config, hlookup, hresolve⟩ := h.holds layer hlayer region hregion chain hchain modifiers
    hmodifiers
  unfold resolvedTargetConfigForLayer
  rw [h.authority_eq, hhost, Option.bind_some, hlookup]
  dsimp only
  by_cases hcovered : (authority.scopedConfig.rangesFor
      (targetOf region modifiers chain).objectId).any (·.covers layer.z) = true
  · have hranges : authority.scopedConfig.layerRanges.isEmpty = false := by
      rw [Bool.eq_false_iff]
      intro hempty
      rw [ScopedConfig.rangesFor, Std.ExtTreeMap.isEmpty_iff.mp hempty] at hcovered
      simp at hcovered
    rw [hranges, hcovered]
    rfl
  · rw [Bool.not_eq_true] at hcovered
    rw [hcovered, Bool.and_false, if_neg Bool.false_ne_true, entryStack,
      resolveScopeStack_uncovered rfl hcovered, hresolve]
    rfl

/-- The config of a base or painted entry is its stack. -/
theorem HoldsTargets.effectiveConfig (h : HoldsTargets input authority host)
    (hlayer : layer ∈ input.globalLayers) (hregion : region ∈ layer.activeRegions)
    (hchain : CanonicalChain input region.objectId chain) {config : ResolvedConfig F}
    (hconfig : effectiveConfig input layer region chain = .ok config) :
    entryStack authority layer region [] chain = .ok config := by
  obtain ⟨⟨host', default⟩, hhost, -⟩ := Option.map_eq_some_iff.mp h.host_eq
  have hresolved := h.resolved hlayer hregion hchain (.inl rfl)
  unfold Region.effectiveConfig at hconfig
  rw [targetOf] at hresolved
  rw [hresolved, hhost] at hconfig
  cases hstack : entryStack authority layer region [] chain with
  | error e =>
    rw [hstack] at hconfig
    cases hconfig
  | ok resolved =>
    rw [hstack] at hconfig
    cases hconfig
    rfl

theorem HoldsTargets.childConfig (h : HoldsTargets input authority host)
    (hlayer : layer ∈ input.globalLayers) (hregion : region ∈ layer.activeRegions)
    (hchain : CanonicalChain input region.objectId chain)
    {group : List ExPolygon × List (ModifierVolume F)}
    (hgroup : group ∈ regionGroups input layer region) {config : ResolvedConfig F}
    (hconfig : childConfig input layer region group.2 chain (lastChainTool chain) = .ok config) :
    ∃ resolved, entryStack authority layer region group.2 chain = .ok resolved ∧
      config = stampSubRegionConfig resolved group.2 := by
  have hresolved := h.resolved hlayer hregion hchain (.inr ⟨group, hgroup, rfl⟩)
  unfold Region.childConfig at hconfig
  rw [targetOf] at hresolved
  rw [hchain.lastChainTool, hresolved] at hconfig
  cases hstack : entryStack authority layer region group.2 chain with
  | error e =>
    rw [hstack] at hconfig
    cases hconfig
  | ok resolved =>
    rw [hstack] at hconfig
    cases hconfig
    exact ⟨resolved, rfl, rfl⟩

end

omit [Floats F] [FloatBits F] in
theorem Pooled.extensions {configs : List (ResolvedConfig F)} {id : Nat}
    {config pooled : ResolvedConfig F} (h : Pooled configs id config)
    (hpooled : configs[id]? = some pooled) : pooled.extensions = config.extensions := by
  obtain ⟨pooled', hpooled', hsame⟩ := h
  rw [hpooled] at hpooled'
  cases hpooled'
  rcases hsame with rfl | hsame
  · rfl
  · unfold sameConfig at hsame
    rw [Bool.and_eq_true, decide_eq_true_eq, decide_eq_true_eq] at hsame
    exact Std.ExtTreeMap.toList_inj.mp hsame.2

theorem entry_unique (hmap : executeRegionMapping input = .ok map)
    {entry entry' : RegionKey F × RegionPlan F} (hentry : entry ∈ map.entries)
    (hentry' : entry' ∈ map.entries) (hkey : entry.1 = entry'.1) : entry = entry' := by
  obtain ⟨_, -, hsound, -⟩ := executeRegionMapping_ok hmap
  exact List.inj_on_of_nodup_map hsound.nodup hentry hentry' hkey

/-- Where all entries obey, stamping leaves what is there. -/
theorem stampsResolved_of_obeys (h : HoldsTargets input authority host)
    (hmap : executeRegionMapping input = .ok map) (hobeys : ObeysPrecedence input authority map) :
    StampsResolved input authority := by
  intro layer hlayer region hregion chain hchain group hgroup resolved hresolved
  refine stamp_unchanged_iff.mp fun key => ?_
  obtain ⟨entry, hentry, id, hid, hkey, config, hconfig, hpooled⟩ :=
    exists_child_entry hmap hlayer hregion hchain hgroup
  obtain ⟨entry', hentry', hkey', pooled, hpool, resolved', hresolved', hsame⟩ :=
    (hobeys layer hlayer region hregion chain hchain).2 group hgroup id hid
  cases entry_unique hmap hentry hentry' (hkey.trans hkey'.symm)
  obtain ⟨stack, hstack, rfl⟩ := h.childConfig hlayer hregion hchain hgroup hconfig
  rw [hresolved] at hstack hresolved'
  cases hstack
  cases hresolved'
  rw [← hsame key, hpooled.extensions hpool]

/-- Where stamping leaves what is there, all entries obey. -/
theorem obeys_of_stampsResolved (h : HoldsTargets input authority host)
    (hmap : executeRegionMapping input = .ok map) (hstamps : StampsResolved input authority) :
    ObeysPrecedence input authority map := by
  intro layer hlayer region hregion chain hchain
  constructor
  · obtain ⟨entry, hentry, hkey, config, hconfig, hpooled⟩ :=
      exists_chain_entry hmap hlayer hregion hchain
    obtain ⟨pooled, hpool, -⟩ := id hpooled
    refine ⟨entry, hentry, hkey, pooled, hpool, config,
      h.effectiveConfig hlayer hregion hchain hconfig, fun key => ?_⟩
    rw [hpooled.extensions hpool]
  · intro group hgroup id hid
    obtain ⟨entry, hentry, id', hid', hkey, config, hconfig, hpooled⟩ :=
      exists_child_entry hmap hlayer hregion hchain hgroup
    rw [hid] at hid'
    cases hid'
    obtain ⟨pooled, hpool, hsame⟩ := hpooled
    obtain ⟨resolved, hresolved, rfl⟩ := h.childConfig hlayer hregion hchain hgroup hconfig
    refine ⟨entry, hentry, hkey, pooled, hpool, resolved, hresolved, fun key => ?_⟩
    rw [Pooled.extensions ⟨pooled, hpool, hsame⟩ hpool]
    exact stamp_unchanged_iff.mpr
      (hstamps layer hlayer region hregion chain hchain group hgroup resolved hresolved) key

/-- The extensions of all entries are those of their stacks exactly when the raw
fields of modifiers are, on every modifier child, already there. -/
theorem region_configs_obey_precedence_iff (h : HoldsTargets input authority host)
    (hmap : executeRegionMapping input = .ok map) :
    ObeysPrecedence input authority map ↔ StampsResolved input authority :=
  ⟨stampsResolved_of_obeys h hmap, obeys_of_stampsResolved h hmap⟩

end Precedence

/-! ### A modifier and a tool that state one key -/

def stackedModifier : ModifierVolume ℚ :=
  { tileModifier with configDelta := (raftLayers 1).values }

/-- The modifier states one raft layer, the tool some number. -/
def stackedAuthority (toolLayers : Int) : RegionResolutionAuthority ℚ where
  registry := raftRegistry
  scopedConfig := { deltas := .ofList [(.modifier "tile" "dense", raftLayers 1),
    (.tool 1, raftLayers toolLayers)] compare }
  expansion := { nozzleDiameterMm := 2 / 5 }

def paintedChain : VariantChain ℚ :=
  [("material", .ToolIndex 1)]

def stackedTargets : List (ResolutionTarget ℚ) :=
  [targetOf tileRegion [] [], targetOf tileRegion [] paintedChain,
    targetOf tileRegion [stackedModifier] [], targetOf tileRegion [stackedModifier] paintedChain]

/-- The stack of a target without a height. -/
def stackOf (toolLayers : Int) (target : ResolutionTarget ℚ) :
    Except (ResolutionError ℚ) (ResolvedConfig ℚ) :=
  resolveScopeStack (stackedAuthority toolLayers).registry
    (stackedAuthority toolLayers).scopedConfig target (stackedAuthority toolLayers).expansion

def stackedHost (toolLayers : Int) : BTreeMap String (ResolvedConfig ℚ) :=
  .ofList (stackedTargets.map fun target =>
    (resolvedTargetKey target.objectId target.modifierIds target.paintSemantics target.toolIndex,
      (stackOf toolLayers target).toOption.getD ResolvedConfig.default)) compare

def stackedTile (toolLayers : Int) : RegionMappingInput ℚ :=
  { tileInput with
    objects := [{ tile with modifierVolumes := [stackedModifier] }]
    hostConfig := some (stackedHost toolLayers, ResolvedConfig.default)
    layerRangeAuthority := some (stackedAuthority toolLayers) }

theorem canonicalChain_stackedTile {toolLayers : Int} {chain : VariantChain ℚ}
    (h : CanonicalChain (stackedTile toolLayers) "tile" chain) :
    chain = [] ∨ chain = paintedChain := by
  have hdeclared : tileInput.aggregatedRegionSplit.toList = ["material"] := by
    decide +kernel
  have hsub : (chain.map Prod.fst).Sublist tileInput.aggregatedRegionSplit.toList := h.sublist
  rw [hdeclared] at hsub
  cases chain with
  | nil => exact .inl rfl
  | cons entry rest =>
    obtain ⟨semantic, value⟩ := entry
    cases hsub with
    | cons _ hsub => cases hsub
    | cons_cons _ hsub =>
      rw [List.sublist_nil, List.map_eq_nil_iff] at hsub
      subst hsub
      have hvalue : value ∈ objectValues [{ tile with modifierVolumes := [stackedModifier] }]
          tileInput.aggregatedRegionSplit "tile" "material" :=
        h.values _ (List.mem_cons_self ..)
      have hvalues : objectValues [{ tile with modifierVolumes := [stackedModifier] }]
          tileInput.aggregatedRegionSplit "tile" "material" = [PaintValue.ToolIndex 1] := by
        decide +kernel
      rw [hvalues, List.mem_singleton] at hvalue
      subst hvalue
      exact .inr rfl

theorem regionGroups_stackedTile (toolLayers : Int) :
    regionGroups (stackedTile toolLayers) tileLayer tileRegion =
      [(tileFootprint, [stackedModifier])] :=
  rfl

theorem holdsTargets_stackedTile {toolLayers : Int}
    (hstacks : ∀ target ∈ stackedTargets, (stackOf toolLayers target).isOk = true) :
    HoldsTargets (stackedTile toolLayers) (stackedAuthority toolLayers) (stackedHost toolLayers) where
  host_eq := rfl
  authority_eq := rfl
  holds layer hlayer region hregion chain hchain modifiers hmodifiers := by
    cases List.mem_singleton.mp hlayer
    cases List.mem_singleton.mp hregion
    have htarget : targetOf tileRegion modifiers chain ∈ stackedTargets := by
      rw [stackedTargets]
      have hgroups : modifiers = [] ∨ modifiers = [stackedModifier] := by
        rcases hmodifiers with rfl | ⟨group, hgroup, rfl⟩
        · exact .inl rfl
        · rw [regionGroups_stackedTile, List.mem_singleton] at hgroup
          rw [hgroup]
          exact .inr rfl
      rcases canonicalChain_stackedTile hchain with rfl | rfl <;> rcases hgroups with rfl | rfl <;>
        simp
    have hkeys : (stackedTargets.map fun target => resolvedTargetKey target.objectId
        target.modifierIds target.paintSemantics target.toolIndex).Nodup := by
      decide +kernel
    have hok := hstacks _ htarget
    cases hstack : stackOf toolLayers (targetOf tileRegion modifiers chain) with
    | error e =>
      rw [hstack] at hok
      cases hok
    | ok config =>
      refine ⟨config, ?_, hstack⟩
      refine BTreeMap.getElem?_ofList_of_nodup ?_ (List.mem_map.mpr ⟨_, htarget, ?_⟩)
      · rw [List.map_map]
        exact hkeys
      · rw [hstack]
        rfl

theorem stackedTile_resolves : ∀ toolLayers ∈ [(1 : Int), 5],
    (executeRegionMapping (stackedTile toolLayers)).toOption.isSome = true ∧
    (∀ target ∈ stackedTargets, (stackOf toolLayers target).isOk = true) ∧
    ∀ chain ∈ [[], paintedChain], ((entryStack (stackedAuthority toolLayers) tileLayer tileRegion
      [stackedModifier] chain).toOption.bind fun resolved =>
        resolved.extensions["support_raft_layers"]?) =
          some (.int (if chain = [] then 1 else toolLayers)) := by
  decide +kernel

theorem lastStamped_stackedModifier {key : ConfigKey} {value : ConfigValue ℚ}
    (h : lastStamped [stackedModifier] key = some value) :
    key = "support_raft_layers" ∧ value = .int 1 := by
  have hfields : stampedFields [stackedModifier] = [("support_raft_layers", .int 1)] := by
    decide +kernel
  rw [lastStamped, hfields] at h
  by_cases hkey : "support_raft_layers" = key
  · rw [List.filterMap_cons, if_pos hkey] at h
    cases h
    exact ⟨hkey.symm, rfl⟩
  · rw [List.filterMap_cons, if_neg hkey] at h
    cases h

theorem exists_stackedMap {toolLayers : Int} (h : toolLayers ∈ [(1 : Int), 5]) :
    ∃ map, executeRegionMapping (stackedTile toolLayers) = .ok map ∧
      HoldsTargets (stackedTile toolLayers) (stackedAuthority toolLayers)
        (stackedHost toolLayers) := by
  obtain ⟨hok, hstacks, -⟩ := stackedTile_resolves toolLayers h
  obtain ⟨map, hmap⟩ := Option.isSome_iff_exists.mp hok
  exact ⟨map, Except.of_toOption_eq_some hmap, holdsTargets_stackedTile hstacks⟩

/-- A tool that says what the modifier says. -/
theorem region_configs_obey_precedence_same :
    ∃ map, executeRegionMapping (stackedTile 1) = .ok map ∧
      ObeysPrecedence (stackedTile 1) (stackedAuthority 1) map := by
  obtain ⟨map, hmap, hholds⟩ := exists_stackedMap (List.mem_cons_self (a := 1))
  refine ⟨map, hmap, (region_configs_obey_precedence_iff hholds hmap).mpr ?_⟩
  intro layer hlayer region hregion chain hchain group hgroup resolved hresolved key value hvalue
  cases List.mem_singleton.mp hlayer
  cases List.mem_singleton.mp hregion
  rw [regionGroups_stackedTile, List.mem_singleton] at hgroup
  subst hgroup
  obtain ⟨rfl, rfl⟩ := lastStamped_stackedModifier hvalue
  have hchains : chain ∈ [[], paintedChain] := by
    simpa using canonicalChain_stackedTile hchain
  have hstack := (stackedTile_resolves 1 (List.mem_cons_self ..)).2.2 chain hchains
  rw [hresolved, ite_self] at hstack
  exact hstack

/-- The child of the painted region has the raft layer of the modifier, where its
tool says five. -/
theorem modifier_overrides_tool :
    ∃ map, executeRegionMapping (stackedTile 5) = .ok map ∧
      HoldsTargets (stackedTile 5) (stackedAuthority 5) (stackedHost 5) ∧
      ¬ ObeysPrecedence (stackedTile 5) (stackedAuthority 5) map := by
  have hfive : (5 : Int) ∈ [(1 : Int), 5] := List.mem_cons_of_mem _ (List.mem_singleton.mpr rfl)
  obtain ⟨map, hmap, hholds⟩ := exists_stackedMap hfive
  refine ⟨map, hmap, hholds, fun hobeys => ?_⟩
  have hstamps := stampsResolved_of_obeys hholds hmap hobeys
  have hchain : CanonicalChain (stackedTile 5) "tile" paintedChain := by
    constructor
    · decide +kernel
    · decide +kernel
  have hstack := (stackedTile_resolves 5 hfive).2.2 paintedChain
    (List.mem_cons_of_mem _ (List.mem_singleton.mpr rfl))
  obtain ⟨resolved, hresolved, hlayers⟩ := Option.bind_eq_some_iff.mp hstack
  have hraft := hstamps tileLayer (List.mem_singleton.mpr rfl) tileRegion
    (List.mem_singleton.mpr rfl) paintedChain hchain (tileFootprint, [stackedModifier])
    (by rw [regionGroups_stackedTile]; exact List.mem_singleton.mpr rfl) resolved
    (Except.of_toOption_eq_some hresolved) "support_raft_layers" (.int 1) (by decide +kernel)
  rw [hlayers] at hraft
  cases hraft

end PinchNPrint.Region
