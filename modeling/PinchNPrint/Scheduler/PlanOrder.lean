/-
The per-layer stages of a plan and the canonical stage order.

`buildExecutionPlan` keeps the order of the sorted stages and splices the host's
paint annotation in before the first stage of a hand-kept list. The list leaves
`Layer::AnchoredEvents` out, so the splice keeps the canonical order exactly
when that stage is not the first populated layer stage
(`perLayerStages_ascending_iff`).
-/

import PinchNPrint.Scheduler.Plan

namespace PinchNPrint.Scheduler

open Std PinchNPrint.Config

variable {F R : Type}

/-- The stages are known and in strictly increasing position. -/
structure Ascending (stages : List StageId) : Prop where
  known : ∀ stage ∈ stages, stage ∈ STAGE_ORDER
  increasing : stages.Pairwise fun a b => STAGE_ORDER.idxOf a < STAGE_ORDER.idxOf b

instance (stages : List StageId) : Decidable (Ascending stages) :=
  decidable_of_iff ((∀ stage ∈ stages, stage ∈ STAGE_ORDER) ∧
      stages.Pairwise fun a b => STAGE_ORDER.idxOf a < STAGE_ORDER.idxOf b)
    ⟨fun h => ⟨h.1, h.2⟩, fun h => ⟨h.known, h.increasing⟩⟩

theorem Ascending.sublist {stages part : List StageId} (h : Ascending stages)
    (hpart : part.Sublist stages) : Ascending part :=
  ⟨fun stage hstage => h.known stage (hpart.subset hstage), h.increasing.sublist hpart⟩

theorem Ascending.nodup {stages : List StageId} (h : Ascending stages) : stages.Nodup :=
  h.increasing.imp fun hlt heq => by
    rw [heq] at hlt
    exact Nat.lt_irrefl _ hlt

/-- The layer stages of a request that have modules, in request order. -/
def populatedLayers (request : ExecutionPlanRequest F R) : List StageId :=
  (request.sortedStages.filter fun stage =>
    !stage.moduleIds.isEmpty && Text.startsWith stage.stageId "Layer::").map
      SortedStageModules.stageId

theorem populatedLayers_sublist (request : ExecutionPlanRequest F R) :
    (populatedLayers request).Sublist (request.sortedStages.map SortedStageModules.stageId) :=
  List.filter_sublist.map _

/-! ### From the sorted stages to the compiled ones -/

theorem compiled_layers {bindings : BTreeMap ModuleId (ExecutionModuleBinding F)}
    {stages : List SortedStageModules} {compiled : List (CompiledStage F)}
    (h : stages.mapM (compileStage bindings) = .ok compiled) :
    ((compiled.filter fun stage => !stage.modules.isEmpty).filter fun stage =>
        Text.startsWith stage.stageId "Layer::").map CompiledStage.stageId =
      (stages.filter fun stage =>
        !stage.moduleIds.isEmpty && Text.startsWith stage.stageId "Layer::").map
          SortedStageModules.stageId := by
  rw [List.filter_filter]
  have hall := Except.forall₂_of_mapM_eq_ok h
  clear h
  induction hall with
  | nil => rfl
  | @cons stage result stages compiled hstage _ ih =>
    obtain ⟨modules, hmodules, hresult⟩ := Except.of_bind_eq_ok hstage
    cases hresult
    have hlen : stage.moduleIds.length = modules.length :=
      (Except.forall₂_of_mapM_eq_ok hmodules).length_eq
    have hempty : modules.isEmpty = stage.moduleIds.isEmpty := by
      rw [Bool.eq_iff_iff, List.isEmpty_iff_length_eq_zero, List.isEmpty_iff_length_eq_zero, hlen]
    rw [List.filter_cons, List.filter_cons, hempty, Bool.and_comm]
    split
    · rw [List.map_cons, List.map_cons, ih]
    · exact ih

/-- `ensurePaintStage` on stage ids. -/
def withPaint (ids : List StageId) : List StageId :=
  if ids.any fun id => id == "Layer::PaintRegionAnnotation" then ids
  else ids.insertIdx ((ids.findIdx? fun id => paintSuccessors.contains id).getD ids.length)
    "Layer::PaintRegionAnnotation"

theorem map_ensurePaintStage (stages : List (CompiledStage F)) :
    (ensurePaintStage stages).map CompiledStage.stageId =
      withPaint (stages.map CompiledStage.stageId) := by
  simp only [ensurePaintStage, withPaint, List.any_map, List.findIdx?_map, List.length_map,
    Function.comp_def]
  split
  · rfl
  · rw [List.map_insertIdx]

theorem perLayerStages_eq {request : ExecutionPlanRequest F R}
    {diagnostics diagnostics' : List LoadDiagnostic} {plan : ExecutionPlan F R}
    (h : buildExecutionPlan request diagnostics = .ok (plan, diagnostics')) :
    plan.perLayerStages.map CompiledStage.stageId = withPaint (populatedLayers request) := by
  obtain ⟨-, -, h⟩ := Except.of_bind_eq_ok h
  obtain ⟨bindings, -, h⟩ := Except.of_bind_eq_ok h
  obtain ⟨compiled, hcompiled, h⟩ := Except.of_bind_eq_ok h
  cases h
  rw [map_ensurePaintStage, compiled_layers hcompiled]
  rfl

/-! ### The splice -/

/-- A known layer stage is the paint annotation, or comes after it and is listed
as a successor unless it is the anchored-events stage. -/
theorem layer_cases {id : StageId} (hknown : id ∈ STAGE_ORDER)
    (hlayer : Text.startsWith id "Layer::" = true) :
    id = "Layer::PaintRegionAnnotation" ∨
      (STAGE_ORDER.idxOf "Layer::PaintRegionAnnotation" < STAGE_ORDER.idxOf id ∧
        (id ∈ paintSuccessors ↔ id ≠ "Layer::AnchoredEvents")) := by
  revert id
  decide

/-- Splicing the paint annotation into ascending layer stages keeps them
ascending exactly when the anchored events do not come first. -/
theorem withPaint_ascending_iff {ids : List StageId} (h : Ascending ids)
    (hlayer : ∀ id ∈ ids, Text.startsWith id "Layer::" = true) :
    (Ascending (withPaint ids) ∧ (withPaint ids).count "Layer::PaintRegionAnnotation" = 1) ↔
      ids.head? ≠ some "Layer::AnchoredEvents" := by
  rw [withPaint]
  split
  · rename_i hany
    have hmem : "Layer::PaintRegionAnnotation" ∈ ids := by simpa using hany
    refine iff_of_true ⟨h, List.count_eq_one_of_mem h.nodup hmem⟩ fun hhead => ?_
    -- The paint annotation would have to follow the anchored events.
    obtain ⟨rest, rfl⟩ := List.head?_eq_some_iff.mp hhead
    have hrest := (List.mem_cons.mp hmem).resolve_left (by decide)
    exact absurd ((List.pairwise_cons.mp h.increasing).1 _ hrest) (by decide)
  · rename_i hany
    have habsent : "Layer::PaintRegionAnnotation" ∉ ids := by simpa using hany
    have hafter : ∀ id ∈ ids,
        STAGE_ORDER.idxOf "Layer::PaintRegionAnnotation" < STAGE_ORDER.idxOf id ∧
          (id ∈ paintSuccessors ↔ id ≠ "Layer::AnchoredEvents") := fun id hid =>
      (layer_cases (h.known id hid) (hlayer id hid)).resolve_left fun heq => habsent (heq ▸ hid)
    cases ids with
    | nil => exact iff_of_true ⟨by decide, by decide⟩ (by decide)
    | cons first rest =>
      by_cases hfirst : first = "Layer::AnchoredEvents"
      · refine iff_of_false (fun hgood => ?_) (by simp [hfirst])
        have hskip : paintSuccessors.contains first = false := by
          rw [hfirst]
          decide
        have hpaint : "Layer::PaintRegionAnnotation" ∈ rest.insertIdx
            ((rest.findIdx? fun id => paintSuccessors.contains id).getD rest.length)
            "Layer::PaintRegionAnnotation" := by
          refine (List.mem_insertIdx ?_).mpr (.inl rfl)
          cases hfind : rest.findIdx? fun id => paintSuccessors.contains id with
          | none => simp
          | some i => exact (List.findIdx?_eq_some_iff_getElem.mp hfind).1.le
        have hat : (((first :: rest).findIdx? fun id => paintSuccessors.contains id).getD
            (first :: rest).length) =
            ((rest.findIdx? fun id => paintSuccessors.contains id).getD rest.length) + 1 := by
          rw [List.findIdx?_cons, hskip]
          cases rest.findIdx? fun id => paintSuccessors.contains id <;> rfl
        rw [hat, List.insertIdx_succ_cons] at hgood
        have hlt := (List.pairwise_cons.mp hgood.1.increasing).1 _ hpaint
        rw [hfirst] at hlt
        exact absurd hlt (by decide)
      · have hlisted := (hafter first List.mem_cons_self).2.mpr hfirst
        refine iff_of_true ?_ (by simpa using hfirst)
        rw [List.findIdx?_cons, List.contains_iff_mem.mpr hlisted, if_pos rfl, Option.getD_some,
          List.insertIdx_zero]
        refine ⟨⟨?_, List.pairwise_cons.mpr ⟨fun id hid => (hafter id hid).1, h.increasing⟩⟩, ?_⟩
        · intro id hid
          rcases List.mem_cons.mp hid with rfl | hid
          · decide
          · exact h.known id hid
        · rw [List.count_cons_self, List.count_eq_zero_of_not_mem habsent]

/-- **The per-layer plan and the canonical order.** For ascending sorted stages
a plan's per-layer stages are ascending, with the paint annotation exactly once,
if and only if the first populated layer stage is not the anchored events. -/
theorem perLayerStages_ascending_iff {request : ExecutionPlanRequest F R}
    (hsorted : Ascending (request.sortedStages.map SortedStageModules.stageId))
    {diagnostics diagnostics' : List LoadDiagnostic} {plan : ExecutionPlan F R}
    (h : buildExecutionPlan request diagnostics = .ok (plan, diagnostics')) :
    (Ascending (plan.perLayerStages.map CompiledStage.stageId) ∧
        (plan.perLayerStages.map CompiledStage.stageId).count "Layer::PaintRegionAnnotation" = 1) ↔
      (populatedLayers request).head? ≠ some "Layer::AnchoredEvents" := by
  rw [perLayerStages_eq h]
  refine withPaint_ascending_iff (hsorted.sublist (populatedLayers_sublist request)) ?_
  intro id hid
  obtain ⟨stage, hstage, rfl⟩ := List.mem_map.mp hid
  have hkept := (List.mem_filter.mp hstage).2
  exact (Bool.and_eq_true_iff.mp hkept).2

/-- A module of one stage, without accesses, claims or config. -/
def bareModule (id : ModuleId) (stage : StageId) : PlannedModule ℚ where
  id := id
  stage := stage
  irReads := []
  irWrites := []
  claims := []
  requiresClaims := []
  incompatibleWith := []
  requiresModules := []
  minHostVersion := ⟨0, 1, 0⟩
  minIrSchema := ⟨1, 0, 0⟩
  maxIrSchema := ⟨2, 0, 0⟩

/-- One bare module for each of the stages. -/
def bareRequest (stages : List StageId) : ExecutionPlanRequest ℚ Unit where
  sortedStages := stages.map fun stage => ⟨stage, ["com.example." ++ stage]⟩
  moduleBindings := stages.map fun stage => ⟨bareModule ("com.example." ++ stage) stage, ⟨∅⟩⟩
  globalLayers := []
  regionPlans := []

/-- A request whose only modules are anchored-event modules gets the paint
annotation after them. -/
theorem anchoredEvents_precede_paint :
    Ascending ((bareRequest ["Layer::AnchoredEvents"]).sortedStages.map
        SortedStageModules.stageId) ∧
      ∃ plan diagnostics,
        buildExecutionPlan (bareRequest ["Layer::AnchoredEvents"]) [] = .ok (plan, diagnostics) ∧
        plan.perLayerStages.map CompiledStage.stageId =
          ["Layer::AnchoredEvents", "Layer::PaintRegionAnnotation"] ∧
        ¬ Ascending (plan.perLayerStages.map CompiledStage.stageId) := by
  refine ⟨by decide, ?_⟩
  cases h : buildExecutionPlan (bareRequest ["Layer::AnchoredEvents"]) [] with
  | error error =>
    have hok : (buildExecutionPlan (bareRequest ["Layer::AnchoredEvents"]) []).isOk = true := by
      rfl
    rw [h] at hok
    cases hok
  | ok result =>
    have hstages : result.1.perLayerStages.map CompiledStage.stageId =
        ["Layer::AnchoredEvents", "Layer::PaintRegionAnnotation"] :=
      (perLayerStages_eq h).trans (by decide)
    refine ⟨result.1, result.2, rfl, hstages, ?_⟩
    rw [hstages]
    decide

theorem perLayerStages_ascending_iff_infill :
    ∃ plan diagnostics,
      buildExecutionPlan (bareRequest ["PrePass::Slice", "Layer::Infill", "Layer::AnchoredEvents"])
        [] = .ok (plan, diagnostics) ∧
      Ascending (plan.perLayerStages.map CompiledStage.stageId) := by
  cases h : buildExecutionPlan
      (bareRequest ["PrePass::Slice", "Layer::Infill", "Layer::AnchoredEvents"]) [] with
  | error error =>
    have hok : (buildExecutionPlan
        (bareRequest ["PrePass::Slice", "Layer::Infill", "Layer::AnchoredEvents"]) []).isOk =
        true := by rfl
    rw [h] at hok
    cases hok
  | ok result =>
    exact ⟨result.1, result.2, rfl,
      ((perLayerStages_ascending_iff (by decide) h).mpr (by decide)).1⟩

end PinchNPrint.Scheduler
