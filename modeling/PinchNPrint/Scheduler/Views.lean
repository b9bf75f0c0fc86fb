/-
Config views are least-privilege.

`Readable` says which keys a module may see. A bound view shows readable keys
only (`readable_of_mem_keys`), which is what the guard of the plan asks for
again in its own words (`visibleAllowed_iff`), and what it shows under a
readable key is decided by the flattened config at that key and, for a declared
legacy spelling, at its canonical spelling (`view_lookup`).
-/

import PinchNPrint.Scheduler.Plan

namespace PinchNPrint.Scheduler

open Std PinchNPrint.Config

variable {F R : Type}

/-- A declared key covers a key: it is the key, or a wildcard over its family. -/
def Covers (declaredKey key : ConfigKey) : Prop :=
  declaredKey = key ∨ ∃ family rest, declaredKey = family ++ ":*" ∧ key = family ++ (":" ++ rest)

/-- The keys a module may see: those its schema covers and, for a module that
holds a support-family claim, the two support-family keys. -/
def Readable (module : PlannedModule F) (key : ConfigKey) : Prop :=
  (∃ declaredKey ∈ module.configSchema.keys, Covers declaredKey key) ∨
    (holdsSupportFamily module.claims = true ∧
      (key = SUPPORT_GENERATOR_CONFIG_KEY ∨ key = SUPPORT_FAMILY_CONFIG_KEY))

/-! ### The match rule -/

variable {key : ConfigKey} {module : PlannedModule F}

/-- The match rule is coverage. -/
theorem sourceKeyMatchesDeclared_iff {declaredKey : ConfigKey} :
    sourceKeyMatchesDeclared declaredKey key = true ↔ Covers declaredKey key := by
  rw [sourceKeyMatchesDeclared]
  cases hstrip : Text.stripEnd ":*" declaredKey with
  | none =>
    simp only [beq_iff_eq]
    constructor
    · intro heq
      exact Or.inl heq
    · rintro (heq | ⟨family, rest, hfamily, -⟩)
      · exact heq
      · rw [Text.stripEnd_eq_some_iff.mpr hfamily] at hstrip
        cases hstrip
  | some family =>
    have hfamily := Text.stripEnd_eq_some_iff.mp hstrip
    simp only [Option.any_eq_true]
    constructor
    · rintro ⟨rest, hrest, hcolon⟩
      obtain ⟨tail, rfl⟩ := Text.startsWith_iff.mp hcolon
      exact Or.inr ⟨family, tail, hfamily, Text.stripStart_eq_some_iff.mp hrest⟩
    · rintro (rfl | ⟨family', rest, hfamily', rfl⟩)
      · -- A wildcard covers itself, with `*` for the rest.
        refine ⟨":*", Text.stripStart_eq_some_iff.mpr hfamily, ?_⟩
        exact Text.startsWith_iff.mpr ⟨"*", rfl⟩
      · have hsame : family' = family := by
          rw [Text.stripEnd_eq_some_iff.mpr hfamily'] at hstrip
          exact Option.some.inj hstrip
        subst hsame
        exact ⟨":" ++ rest, Text.stripStart_eq_some_iff.mpr rfl,
          Text.startsWith_iff.mpr ⟨rest, rfl⟩⟩

/-- Nothing but itself is covered by a key that is no wildcard. -/
theorem covers_iff_of_static {declaredKey : ConfigKey} (h : Text.endsWith declaredKey ":*" = false)
    : Covers declaredKey key ↔ key = declaredKey := by
  constructor
  · rintro (rfl | ⟨family, rest, rfl, -⟩)
    · rfl
    · rw [Text.endsWith_iff.mpr ⟨family, rfl⟩] at h
      cases h
  · rintro rfl
    exact Or.inl rfl

/-- The guard of the plan is readability. -/
theorem visibleAllowed_iff : visibleAllowed module key = true ↔ Readable module key := by
  simp only [visibleAllowed, configKeyDeclared, Bool.or_eq_true, List.any_eq_true,
    Bool.and_eq_true, beq_iff_eq, sourceKeyMatchesDeclared_iff]
  rfl

theorem mem_declaredReads :
    key ∈ declaredReads module ↔ key ∈ module.configSchema.keys ∨
      (holdsSupportFamily module.claims = true ∧
        (key = SUPPORT_GENERATOR_CONFIG_KEY ∨ key = SUPPORT_FAMILY_CONFIG_KEY)) := by
  have hpush : ∀ (declared : List ConfigKey) (pushed : ConfigKey),
      key ∈ (if pushed ∈ declared then declared else declared ++ [pushed]) ↔
        key ∈ declared ∨ key = pushed := by
    intro declared pushed
    split
    · rename_i hmem
      constructor
      · exact Or.inl
      · rintro (h | rfl)
        · exact h
        · exact hmem
    · simp
  rw [declaredReads]
  split
  · rename_i hholds
    simp only [List.foldl_cons, List.foldl_nil, hpush, hholds, true_and, or_assoc]
  · rename_i hholds
    simp [hholds]

/-! ### The projected view -/

/-- Back-filling changes declared legacy spellings only, and gives them the
value of their canonical key when there is one. -/
theorem backfill_lookup (declared : List ConfigKey) (source : BTreeMap ConfigKey (ConfigValue F))
    (key : ConfigKey) :
    (declared.foldl backfillAlias source)[key]? =
      if key ∈ declared then source[canonicalConfigKey key]?.or source[key]? else source[key]? := by
  -- A canonical spelling is never a legacy one, so a step never changes it.
  have hstep : ∀ (source : BTreeMap ConfigKey (ConfigValue F)) (declaredKey key : ConfigKey),
      (backfillAlias source declaredKey)[key]? =
        if key = declaredKey then source[canonicalConfigKey key]?.or source[key]?
        else source[key]? := by
    intro source declaredKey key
    rw [backfillAlias]
    by_cases hcanonical : canonicalConfigKey declaredKey = declaredKey
    · rw [if_neg (not_not.mpr hcanonical)]
      split
      · rename_i heq
        rw [heq, hcanonical, Option.or_self]
      · rfl
    · rw [if_pos hcanonical]
      by_cases hkey : key = declaredKey
      · subst hkey
        rw [if_pos rfl]
        cases hvalue : source[canonicalConfigKey key]? with
        | none => simp only [Option.none_or]
        | some value => simp only [ExtTreeMap.getElem?_insert_self, Option.some_or]
      · rw [if_neg hkey]
        cases hvalue : source[canonicalConfigKey declaredKey]? with
        | none => rfl
        | some value => exact BTreeMap.getElem?_insert_of_ne (Ne.symm hkey) value
  induction declared generalizing source with
  | nil => simp
  | cons declaredKey rest ih =>
    have hcanonical : (backfillAlias source declaredKey)[canonicalConfigKey key]? =
        source[canonicalConfigKey key]? := by
      rw [hstep, canonicalConfigKey_idem]
      split <;> simp
    rw [List.foldl_cons, ih, hcanonical, hstep]
    by_cases hkey : key = declaredKey
    · subst hkey
      cases hvalue : source[canonicalConfigKey key]? <;> simp
    · simp only [List.mem_cons, hkey, false_or, if_false]

theorem fromDeclared_lookup (source : BTreeMap ConfigKey (ConfigValue F))
    (declared : List ConfigKey) (key : ConfigKey) :
    (ConfigView.fromDeclared source declared).fields[key]? =
      if key ∈ declared then source[key]? else none := by
  rw [ConfigView.fromDeclared]
  induction declared using List.reverseRecOn with
  | nil => simp
  | append_singleton before last ih =>
    simp only [List.foldl_concat, List.mem_append, List.mem_singleton]
    by_cases hkey : key = last
    · subst hkey
      cases hvalue : source[key]? with
      | none => simp [ih, hvalue]
      | some value => simp
    · cases source[last]? with
      | none => simp [ih, hkey]
      | some value => simp [ih, hkey, BTreeMap.getElem?_insert_of_ne (Ne.symm hkey)]

/-- What a projected view shows under a key. -/
theorem project_lookup [Floats F] (resolved : ResolvedConfig F) (declared : List ConfigKey)
    (key : ConfigKey) :
    (projectDeclaredConfigView resolved declared).fields[key]? =
      if ∃ declaredKey ∈ declared, sourceKeyMatchesDeclared declaredKey key = true then
        (declared.foldl backfillAlias resolved.toConfigMap)[key]?
      else none := by
  rw [projectDeclaredConfigView, fromDeclared_lookup]
  generalize hsource : declared.foldl backfillAlias resolved.toConfigMap = source
  cases hvalue : source[key]? with
  | none => simp
  | some value =>
    have hmem : key ∈ source.keys := by
      rw [ExtTreeMap.mem_keys]
      exact BTreeMap.mem_iff_getElem?_isSome.mpr ⟨value, hvalue⟩
    have heffective : key ∈ declared.flatMap (effectiveKeys source) ↔
        ∃ declaredKey ∈ declared, sourceKeyMatchesDeclared declaredKey key = true := by
      rw [List.mem_flatMap]
      refine exists_congr fun declaredKey => and_congr_right fun _ => ?_
      rw [effectiveKeys]
      split
      · rw [List.mem_filter]
        exact and_iff_right hmem
      · rename_i hwild
        have hstrip : Text.stripEnd ":*" declaredKey = none := by
          rw [Text.stripEnd, if_neg hwild]
        simp only [List.mem_singleton, sourceKeyMatchesDeclared, hstrip, beq_iff_eq]
        exact eq_comm
    simp only [heffective]

/-- What a module sees under a key. -/
theorem view_lookup [Floats F] (module : PlannedModule F) (resolved : ResolvedConfig F)
    (key : ConfigKey) [Decidable (Readable module key)] :
    (bindModuleConfigView module resolved).fields[key]? =
      if Readable module key then
        if key ∈ declaredReads module then
          resolved.toConfigMap[canonicalConfigKey key]?.or resolved.toConfigMap[key]?
        else resolved.toConfigMap[key]?
      else none := by
  have hreadable : (∃ declaredKey ∈ declaredReads module,
      sourceKeyMatchesDeclared declaredKey key = true) ↔ Readable module key := by
    have hgenerator : Covers SUPPORT_GENERATOR_CONFIG_KEY key ↔ key = SUPPORT_GENERATOR_CONFIG_KEY :=
      covers_iff_of_static (by decide)
    have hfamily : Covers SUPPORT_FAMILY_CONFIG_KEY key ↔ key = SUPPORT_FAMILY_CONFIG_KEY :=
      covers_iff_of_static (by decide)
    simp only [sourceKeyMatchesDeclared_iff, mem_declaredReads]
    constructor
    · rintro ⟨declaredKey, hschema | ⟨hholds, rfl | rfl⟩, hcovers⟩
      · exact Or.inl ⟨declaredKey, hschema, hcovers⟩
      · exact Or.inr ⟨hholds, Or.inl (hgenerator.mp hcovers)⟩
      · exact Or.inr ⟨hholds, Or.inr (hfamily.mp hcovers)⟩
    · rintro (⟨declaredKey, hschema, hcovers⟩ | ⟨hholds, rfl | rfl⟩)
      · exact ⟨declaredKey, Or.inl hschema, hcovers⟩
      · exact ⟨_, Or.inr ⟨hholds, Or.inl rfl⟩, hgenerator.mpr rfl⟩
      · exact ⟨_, Or.inr ⟨hholds, Or.inr rfl⟩, hfamily.mpr rfl⟩
  rw [bindModuleConfigView, project_lookup, backfill_lookup]
  simp only [hreadable]

/-- A bound view shows readable keys only. -/
theorem readable_of_mem_keys [Floats F] {resolved : ResolvedConfig F}
    (h : key ∈ (bindModuleConfigView module resolved).keys) : Readable module key := by
  classical
  rw [ConfigView.keys, ExtTreeMap.mem_keys, BTreeMap.mem_iff_getElem?_isSome] at h
  obtain ⟨value, hvalue⟩ := h
  rw [view_lookup] at hvalue
  by_contra hreadable
  rw [if_neg hreadable] at hvalue
  cases hvalue

/-! ### The plan accepts bound views -/

/-- Not the guard's error. -/
def NotUndeclared (error : ExecutionPlanError) : Prop :=
  ∀ moduleId key, error ≠ .undeclaredConfigKey moduleId key

theorem addBinding_notUndeclared {bindings : BTreeMap ModuleId (ExecutionModuleBinding F)}
    {binding : ExecutionModuleBinding F}
    (h : ∀ key ∈ binding.configView.keys, Readable binding.module key) :
    Except.FailsWith NotUndeclared (addBinding bindings binding) := by
  have hguard : (binding.configView.keys.find? fun key => !visibleAllowed binding.module key) =
      none := by
    refine List.find?_eq_none.mpr fun key hkey => ?_
    simp [visibleAllowed_iff.mpr (h key hkey)]
  intro error herror
  simp only [addBinding, hguard] at herror
  split at herror
  · cases herror
    exact nofun
  · cases herror

theorem compileStage_notUndeclared (bindings : BTreeMap ModuleId (ExecutionModuleBinding F))
    (stage : SortedStageModules) : Except.FailsWith NotUndeclared (compileStage bindings stage) := by
  apply Except.FailsWith.bind
  · apply Except.FailsWith.mapM
    intro moduleId _ error herror
    rw [compileModule] at herror
    split at herror
    · cases herror
      exact nofun
    · split at herror
      · cases herror
        exact nofun
      · cases herror
  · intro modules
    exact Except.FailsWith.pure _

/-- Planning never reports an undeclared key when every view shows readable
keys only. -/
theorem buildExecutionPlan_notUndeclared {request : ExecutionPlanRequest F R}
    (h : ∀ binding ∈ request.moduleBindings, ∀ key ∈ binding.configView.keys,
      Readable binding.module key) (diagnostics : List LoadDiagnostic) :
    Except.FailsWith NotUndeclared (buildExecutionPlan request diagnostics) := by
  apply Except.FailsWith.bind
  · intro error herror
    rw [checkBounds] at herror
    split at herror
    · cases herror
      exact nofun
    · split at herror
      · cases herror
        exact nofun
      · cases herror
  · intro _
    apply Except.FailsWith.bind
    · exact Except.FailsWith.foldlM
        (fun binding hbinding bindings => addBinding_notUndeclared (h binding hbinding)) _
    · intro bindings
      apply Except.FailsWith.bind
      · exact Except.FailsWith.mapM fun stage _ => compileStage_notUndeclared bindings stage
      · intro compiled
        exact Except.FailsWith.pure _

/-! ### Isolation -/

/-- Two flattened configs agree on a module's declared keys, on the keys its
wildcards cover and on the canonical spellings of its declared keys. -/
structure AgreeOnDeclared (module : PlannedModule F)
    (first second : BTreeMap ConfigKey (ConfigValue F)) : Prop where
  declared : ∀ key ∈ module.configSchema.keys, first[key]? = second[key]?
  wildcards : ∀ family, family ++ ":*" ∈ module.configSchema.keys →
    ∀ rest, first[family ++ (":" ++ rest)]? = second[family ++ (":" ++ rest)]?
  aliases : ∀ key ∈ module.configSchema.keys,
    first[canonicalConfigKey key]? = second[canonicalConfigKey key]?

/-- They agree on everything the module reads: also on the two support-family
keys, when the module holds a support-family claim. -/
structure AgreeOnReads (module : PlannedModule F)
    (first second : BTreeMap ConfigKey (ConfigValue F)) : Prop
    extends AgreeOnDeclared module first second where
  supportFamily : holdsSupportFamily module.claims = true →
    first[SUPPORT_GENERATOR_CONFIG_KEY]? = second[SUPPORT_GENERATOR_CONFIG_KEY]? ∧
      first[SUPPORT_FAMILY_CONFIG_KEY]? = second[SUPPORT_FAMILY_CONFIG_KEY]?

theorem AgreeOnReads.view_eq [Floats F] {resolved resolved' : ResolvedConfig F}
    (agree : AgreeOnReads module resolved.toConfigMap resolved'.toConfigMap) :
    bindModuleConfigView module resolved = bindModuleConfigView module resolved' := by
  classical
  have hsupport : ∀ key, holdsSupportFamily module.claims = true →
      (key = SUPPORT_GENERATOR_CONFIG_KEY ∨ key = SUPPORT_FAMILY_CONFIG_KEY) →
      canonicalConfigKey key = key ∧ resolved.toConfigMap[key]? = resolved'.toConfigMap[key]? := by
    rintro key hholds (rfl | rfl)
    · exact ⟨by decide, (agree.supportFamily hholds).1⟩
    · exact ⟨by decide, (agree.supportFamily hholds).2⟩
  have hfields : (bindModuleConfigView module resolved).fields =
      (bindModuleConfigView module resolved').fields := by
    refine ExtTreeMap.ext_getElem? fun key => ?_
    rw [view_lookup, view_lookup]
    by_cases hreadable : Readable module key
    · rw [if_pos hreadable, if_pos hreadable]
      have hkey : resolved.toConfigMap[key]? = resolved'.toConfigMap[key]? := by
        rcases hreadable with ⟨declaredKey, hschema, rfl | ⟨family, rest, rfl, rfl⟩⟩ | ⟨hholds, hkey⟩
        · exact agree.declared declaredKey hschema
        · exact agree.wildcards family hschema rest
        · exact (hsupport key hholds hkey).2
      have hcanonical : key ∈ declaredReads module →
          resolved.toConfigMap[canonicalConfigKey key]? =
            resolved'.toConfigMap[canonicalConfigKey key]? := by
        intro hdeclared
        rcases mem_declaredReads.mp hdeclared with hschema | ⟨hholds, hsame⟩
        · exact agree.aliases key hschema
        · rw [(hsupport key hholds hsame).1, hkey]
      by_cases hdeclared : key ∈ declaredReads module
      · rw [if_pos hdeclared, if_pos hdeclared, hkey, hcanonical hdeclared]
      · rw [if_neg hdeclared, if_neg hdeclared, hkey]
    · rw [if_neg hreadable, if_neg hreadable]
  cases hview : bindModuleConfigView module resolved
  cases hview' : bindModuleConfigView module resolved'
  rw [hview, hview'] at hfields
  cases hfields
  rfl

/-- Every key a module sees is readable to it, planning never rejects a bound
view for an undeclared key, and configs that agree on what a module reads give
it the same view. -/
theorem module_views_least_privilege [Floats F] :
    (∀ (module : PlannedModule F) (resolved : ResolvedConfig F),
      ∀ key ∈ (bindModuleConfigView module resolved).keys, Readable module key) ∧
    (∀ (request : ExecutionPlanRequest F R) (diagnostics : List LoadDiagnostic),
      (∀ binding ∈ request.moduleBindings, ∃ resolved,
        binding.configView = bindModuleConfigView binding.module resolved) →
      ∀ moduleId key,
        buildExecutionPlan request diagnostics ≠ .error (.undeclaredConfigKey moduleId key)) ∧
    (∀ (module : PlannedModule F) (resolved resolved' : ResolvedConfig F),
      AgreeOnReads module resolved.toConfigMap resolved'.toConfigMap →
      bindModuleConfigView module resolved = bindModuleConfigView module resolved') := by
  refine ⟨fun module resolved key => readable_of_mem_keys, ?_,
    fun module resolved resolved' agree => agree.view_eq⟩
  intro request diagnostics hbound moduleId key herror
  refine buildExecutionPlan_notUndeclared ?_ diagnostics _ herror moduleId key rfl
  intro binding hbinding key hkey
  obtain ⟨resolved, hview⟩ := hbound binding hbinding
  rw [hview] at hkey
  exact readable_of_mem_keys hkey

/-! ### A support module -/

/-- A module with one declared key and the given claims. -/
def raftModule (claims : List String) : PlannedModule ℚ where
  id := "com.core.tree-support"
  stage := "PrePass::SupportGeometry"
  irReads := []
  irWrites := []
  claims := claims
  requiresClaims := []
  incompatibleWith := []
  requiresModules := []
  minHostVersion := ⟨0, 1, 0⟩
  minIrSchema := ⟨1, 0, 0⟩
  maxIrSchema := ⟨2, 0, 0⟩
  configSchema := (∅ : BTreeMap String (ConfigFieldEntry ℚ)).insert "support_raft_layers"
    { fieldType := "int" }

theorem raftModule_keys (claims : List String) :
    (raftModule claims).configSchema.keys = ["support_raft_layers"] := by
  have hlist : (raftModule claims).configSchema.toList =
      [("support_raft_layers", { fieldType := "int" })] :=
    List.perm_singleton.mp (BTreeMap.toList_insert_perm (by simp) _)
  rw [← ExtTreeMap.map_fst_toList_eq_keys, hlist]
  rfl

/-- The default config with a support family. -/
def withFamily (family : String) : ResolvedConfig ℚ :=
  { ResolvedConfig.default with
    extensions := (∅ : BTreeMap ConfigKey (ConfigValue ℚ)).insert "support_family"
      (.string family) }

/-- Configs with different families agree on the one declared key. -/
theorem withFamily_agree (claims : List String) (family family' : String) :
    AgreeOnDeclared (raftModule claims) (withFamily family).toConfigMap
      (withFamily family').toConfigMap := by
  have hkey : (withFamily family).toConfigMap["support_raft_layers"]? =
      (withFamily family').toConfigMap["support_raft_layers"]? := by
    refine ResolvedConfig.toConfigMap_congr rfl ?_
    simp [withFamily]
  constructor
  · intro key hmem
    rw [raftModule_keys, List.mem_singleton] at hmem
    rw [hmem, hkey]
  · intro start hmem
    rw [raftModule_keys, List.mem_singleton] at hmem
    have hstatic : Text.endsWith "support_raft_layers" ":*" = false := by decide
    rw [Text.endsWith_iff.mpr ⟨start, hmem.symm⟩] at hstatic
    cases hstatic
  · intro key hmem
    rw [raftModule_keys, List.mem_singleton] at hmem
    rw [hmem]
    exact hkey

/-- A support module tells apart configs that agree on all its declared keys. -/
theorem support_family_is_read :
    AgreeOnDeclared (raftModule ["support-family:tree"]) (withFamily "tree").toConfigMap
        (withFamily "traditional").toConfigMap ∧
      bindModuleConfigView (raftModule ["support-family:tree"]) (withFamily "tree") ≠
        bindModuleConfigView (raftModule ["support-family:tree"]) (withFamily "traditional") := by
  classical
  refine ⟨withFamily_agree _ _ _, fun hviews => ?_⟩
  have hshown : ∀ family,
      (bindModuleConfigView (raftModule ["support-family:tree"])
        (withFamily family)).fields[SUPPORT_FAMILY_CONFIG_KEY]? = some (.string family) := by
    intro family
    have hreadable : Readable (raftModule ["support-family:tree"]) SUPPORT_FAMILY_CONFIG_KEY :=
      Or.inr ⟨by decide, Or.inr rfl⟩
    have hvalue : (withFamily family).toConfigMap[SUPPORT_FAMILY_CONFIG_KEY]? =
        some (.string family) :=
      ResolvedConfig.toConfigMap_extension (by simp [withFamily, SUPPORT_FAMILY_CONFIG_KEY])
    have hcanonical : canonicalConfigKey SUPPORT_FAMILY_CONFIG_KEY = SUPPORT_FAMILY_CONFIG_KEY := by
      decide
    rw [view_lookup, if_pos hreadable, hcanonical, hvalue, Option.some_or, ite_self]
  have htree := hshown "tree"
  rw [hviews, hshown "traditional"] at htree
  simp at htree

theorem module_views_least_privilege_raft :
    (bindModuleConfigView (raftModule []) (withFamily "tree") =
        bindModuleConfigView (raftModule []) (withFamily "traditional")) ∧
      ∀ moduleId key,
        buildExecutionPlan (R := Unit)
          { sortedStages := [], globalLayers := [], regionPlans := []
            moduleBindings := [{ module := raftModule ["support-family:tree"]
                                 configView := bindModuleConfigView
                                  (raftModule ["support-family:tree"]) (withFamily "tree") }] } [] ≠
          .error (.undeclaredConfigKey moduleId key) := by
  obtain ⟨-, hplan, hviews⟩ := module_views_least_privilege (F := ℚ) (R := Unit)
  refine ⟨hviews _ _ _ ⟨withFamily_agree _ _ _, fun hholds => ?_⟩, hplan _ [] ?_⟩
  · cases hholds
  · intro binding hbinding
    refine ⟨withFamily "tree", ?_⟩
    rw [List.mem_singleton] at hbinding
    simp only [hbinding]

end PinchNPrint.Scheduler
