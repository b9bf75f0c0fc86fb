/-
What staging does with the paths of infill commits.

The merge is generic in the type of the paths. Run on the names of the emitted
paths it says where each of them is staged (`originRegions`): lists are only ever
appended to, so paths emitted in a row are staged in a row.
-/

import PinchNPrint.Lib.Sequences
import PinchNPrint.Layer.Commit

namespace PinchNPrint.Layer

variable {F α β : Type}

/-! ### Naming the emitted paths -/

/-- The lists of an infill region. -/
inductive FillKind where
  | sparse
  | solid
  | ironing
  | internalBridge
deriving DecidableEq

/-- The list of a kind. -/
def InfillRegion.paths (region : InfillRegion F α) : FillKind → List α
  | .sparse => region.sparseInfill
  | .solid => region.solidInfill
  | .ironing => region.ironing
  | .internalBridge => region.internalBridgeInfill

theorem InfillRegion.paths_extend (target new : InfillRegion F α) (kind : FillKind) :
    (target.extend new).paths kind = target.paths kind ++ new.paths kind := by
  cases kind <;> rfl

theorem InfillRegion.paths_infix_drain (region : InfillRegion F α) (kind : FillKind) :
    region.paths kind <:+: region.drain := by
  cases kind with
  | sparse =>
    exact ⟨[], region.solidInfill ++ region.ironing ++ region.internalBridgeInfill,
      by simp [paths, drain]⟩
  | solid =>
    exact ⟨region.sparseInfill, region.ironing ++ region.internalBridgeInfill,
      by simp [paths, drain]⟩
  | ironing =>
    exact ⟨region.sparseInfill ++ region.solidInfill, region.internalBridgeInfill,
      by simp [paths, drain]⟩
  | internalBridge =>
    exact ⟨region.sparseInfill ++ region.solidInfill ++ region.ironing, [],
      by simp [paths, drain]⟩

/-- Where a path was emitted: the commit, the region in it, the list and the
position in the list. -/
structure Origin where
  commit : Nat
  region : Nat
  kind : FillKind
  position : Nat
deriving DecidableEq

/-- The path emitted right after. -/
def Origin.next (o : Origin) : Origin :=
  { o with position := o.position + 1 }

/-- The region of an origin. -/
def regionAt (commits : List (InfillIR F)) (o : Origin) :
    Option (InfillRegion F (ExtrusionPath3D F)) :=
  commits[o.commit]?.bind fun ir => ir.regions[o.region]?

/-- The path emitted at an origin. -/
def emitted (commits : List (InfillIR F)) (o : Origin) : Option (ExtrusionPath3D F) :=
  (regionAt commits o).bind fun region => (region.paths o.kind)[o.position]?

/-- A lock: one local tag of one invocation in one region. -/
structure Lock (F : Type) where
  commit : Nat
  source : ObjectId × Nat × List (String × PaintValue F)
  tag : Nat
deriving DecidableEq

/-- The lock a path was emitted under, if it has a local tag. -/
def lockOf (commits : List (InfillIR F)) (o : Origin) : Option (Lock F) :=
  (regionAt commits o).bind fun region =>
    (region.paths o.kind)[o.position]?.bind fun path =>
      (path.orderLock.filter (IsLocal ·)).map fun tag => ⟨o.commit, region.source, tag⟩

/-- The names of a region's paths. -/
def nameRegion (commit region : Nat) (r : InfillRegion F α) : InfillRegion F Origin :=
  { r with
    sparseInfill := (List.range r.sparseInfill.length).map (Origin.mk commit region .sparse)
    solidInfill := (List.range r.solidInfill.length).map (Origin.mk commit region .solid)
    ironing := (List.range r.ironing.length).map (Origin.mk commit region .ironing)
    internalBridgeInfill :=
      (List.range r.internalBridgeInfill.length).map (Origin.mk commit region .internalBridge) }

theorem paths_nameRegion (commit region : Nat) (r : InfillRegion F α) (kind : FillKind) :
    (nameRegion commit region r).paths kind =
      (List.range (r.paths kind).length).map (Origin.mk commit region kind) := by
  cases kind <;> rfl

/-- The names of a commit's paths. -/
def nameRegions (commit : Nat) (regions : List (InfillRegion F α)) :
    List (InfillRegion F Origin) :=
  regions.mapIdx (nameRegion commit)

/-- The names of the staged paths: the same merge, run on the names. -/
def originRegions [DecidableEq F] (commits : List (InfillIR F)) :
    Option (List (InfillRegion F Origin)) :=
  commits.zipIdx.foldl
    (fun staged entry => some (stageRegions staged (nameRegions entry.2 entry.1.regions))) none

theorem originRegions_append [DecidableEq F] (commits : List (InfillIR F)) (ir : InfillIR F) :
    originRegions (commits ++ [ir]) =
      some (stageRegions (originRegions commits) (nameRegions commits.length ir.regions)) := by
  simp [originRegions, List.zipIdx_append]

/-- The names in the order the staged paths are drained. -/
def stagedOrigins [DecidableEq F] (commits : List (InfillIR F)) : List Origin :=
  ((originRegions commits).getD []).flatMap (·.drain)

/-! ### The merge, run on related regions -/

/-- Two regions of one source whose paths are related position by position. -/
def RegionAligned (R : α → β → Prop) (a : InfillRegion F α) (b : InfillRegion F β) : Prop :=
  a.source = b.source ∧ ∀ kind, List.Forall₂ R (a.paths kind) (b.paths kind)

variable {R : α → β → Prop} {new region : InfillRegion F α} {regions : List (InfillRegion F α)}

theorem RegionAligned.extend {a : InfillRegion F α} {b new' : InfillRegion F β}
    (h : RegionAligned R a b) (hnew : RegionAligned R new new') :
    RegionAligned R (a.extend new) (b.extend new') := by
  refine ⟨h.1, fun kind => ?_⟩
  rw [InfillRegion.paths_extend, InfillRegion.paths_extend]
  exact List.rel_append (h.2 kind) (hnew.2 kind)

theorem RegionAligned.drain {a : InfillRegion F α} {b : InfillRegion F β} (h : RegionAligned R a b)
    : List.Forall₂ R a.drain b.drain :=
  List.rel_append
    (List.rel_append (List.rel_append (h.2 .sparse) (h.2 .solid)) (h.2 .ironing))
    (h.2 .internalBridge)

theorem mergeRegion_aligned [DecidableEq F] {as : List (InfillRegion F α)}
    {bs : List (InfillRegion F β)} {new' : InfillRegion F β}
    (h : List.Forall₂ (RegionAligned R) as bs) (hnew : RegionAligned R new new') :
    List.Forall₂ (RegionAligned R) (mergeRegion as new) (mergeRegion bs new') := by
  induction h with
  | nil => exact .cons hnew .nil
  | @cons a b _ _ hab hrest ih =>
    simp only [mergeRegion]
    rw [hab.1, hnew.1]
    split
    · exact .cons (hab.extend hnew) hrest
    · exact .cons hab ih

theorem stageRegions_aligned [DecidableEq F] {as : Option (List (InfillRegion F α))}
    {bs : Option (List (InfillRegion F β))} {new : List (InfillRegion F α)}
    {new' : List (InfillRegion F β)} (h : Option.Rel (List.Forall₂ (RegionAligned R)) as bs)
    (hnew : List.Forall₂ (RegionAligned R) new new') :
    List.Forall₂ (RegionAligned R) (stageRegions as new) (stageRegions bs new') := by
  cases h with
  | none => exact hnew
  | @some existing existing' h =>
    simp only [stageRegions, mergeInfillIr]
    induction hnew generalizing existing existing' with
    | nil => exact h
    | cons hfirst _ ih => exact ih (mergeRegion_aligned h hfirst)

/-! ### What a merge contains -/

/-- The paths of a kind, over all regions. -/
def pathsOf (regions : List (InfillRegion F α)) (kind : FillKind) : List α :=
  regions.flatMap (·.paths kind)

theorem pathsOf_mergeRegion [DecidableEq F] (regions : List (InfillRegion F α))
    (new : InfillRegion F α) (kind : FillKind) :
    (pathsOf (mergeRegion regions new) kind).Perm (pathsOf regions kind ++ new.paths kind) := by
  induction regions with
  | nil => simp [pathsOf, mergeRegion]
  | cons region rest ih =>
    simp only [mergeRegion]
    split
    · -- the new paths land behind those of the first region
      simp only [pathsOf, List.flatMap_cons, InfillRegion.paths_extend, List.append_assoc]
      exact List.perm_append_comm.append_left (region.paths kind)
    · simp only [pathsOf, List.flatMap_cons, List.append_assoc]
      exact ih.append_left (region.paths kind)

theorem pathsOf_mergeInfillIr [DecidableEq F] (existing incoming : List (InfillRegion F α))
    (kind : FillKind) :
    (pathsOf (mergeInfillIr existing incoming) kind).Perm
      (pathsOf existing kind ++ pathsOf incoming kind) := by
  induction incoming generalizing existing with
  | nil => simp [pathsOf, mergeInfillIr]
  | cons new rest ih =>
    have hstep := (pathsOf_mergeRegion existing new kind).append_right (pathsOf rest kind)
    refine (ih (mergeRegion existing new)).trans (hstep.trans ?_)
    simp [pathsOf]

/-- Staging loses no path and makes none up. -/
theorem pathsOf_stageRegions [DecidableEq F] (staged : Option (List (InfillRegion F α)))
    (incoming : List (InfillRegion F α)) (kind : FillKind) :
    (pathsOf (stageRegions staged incoming) kind).Perm
      (pathsOf (staged.getD []) kind ++ pathsOf incoming kind) := by
  cases staged with
  | none => exact List.Perm.refl _
  | some existing => exact pathsOf_mergeInfillIr existing incoming kind

/-- Some region holds the paths of this one, list by list, without gaps. -/
def Within (region : InfillRegion F α) (regions : List (InfillRegion F α)) : Prop :=
  ∃ region' ∈ regions, ∀ kind, region.paths kind <:+: region'.paths kind

theorem within_of_mem (h : region ∈ regions) : Within region regions :=
  ⟨region, h, fun _ => List.infix_rfl⟩

theorem Within.cons {other : InfillRegion F α} (h : Within region regions) :
    Within region (other :: regions) := by
  obtain ⟨region', hmem, hpaths⟩ := h
  exact ⟨region', List.mem_cons_of_mem other hmem, hpaths⟩

theorem Within.mergeRegion [DecidableEq F] (h : Within region regions) :
    Within region (mergeRegion regions new) := by
  obtain ⟨region', hmem, hpaths⟩ := h
  induction regions with
  | nil => cases hmem
  | cons first rest ih =>
    simp only [Layer.mergeRegion]
    rcases List.mem_cons.mp hmem with rfl | hmem
    · split
      · refine ⟨_, List.mem_cons_self, fun kind => ?_⟩
        rw [InfillRegion.paths_extend]
        exact (hpaths kind).trans (List.prefix_append _ _).isInfix
      · exact ⟨region', List.mem_cons_self, hpaths⟩
    · split
      · exact ⟨region', List.mem_cons_of_mem _ hmem, hpaths⟩
      · exact (ih hmem).cons

theorem within_mergeRegion_self [DecidableEq F] (new : InfillRegion F α)
    (regions : List (InfillRegion F α)) : Within new (mergeRegion regions new) := by
  induction regions with
  | nil => exact within_of_mem List.mem_cons_self
  | cons first rest ih =>
    simp only [Layer.mergeRegion]
    split
    · refine ⟨_, List.mem_cons_self, fun kind => ?_⟩
      rw [InfillRegion.paths_extend]
      exact (List.suffix_append _ _).isInfix
    · exact ih.cons

theorem Within.mergeInfillIr [DecidableEq F] {existing : List (InfillRegion F α)}
    (h : Within region existing) (incoming : List (InfillRegion F α)) :
    Within region (mergeInfillIr existing incoming) := by
  induction incoming generalizing existing with
  | nil => exact h
  | cons new rest ih => exact ih h.mergeRegion

theorem within_mergeInfillIr_of_mem [DecidableEq F] {incoming : List (InfillRegion F α)}
    (h : region ∈ incoming) (existing : List (InfillRegion F α)) :
    Within region (mergeInfillIr existing incoming) := by
  induction incoming generalizing existing with
  | nil => cases h
  | cons new rest ih =>
    rcases List.mem_cons.mp h with rfl | h
    · exact (within_mergeRegion_self region existing).mergeInfillIr rest
    · exact ih h (Layer.mergeRegion existing new)

/-- The names of every committed region stay together in one staged region. -/
theorem nameRegion_within [DecidableEq F] {commits : List (InfillIR F)} {c r : Nat}
    {ir : InfillIR F} {region : InfillRegion F (ExtrusionPath3D F)} (hir : commits[c]? = some ir)
    (hregion : ir.regions[r]? = some region) :
    Within (nameRegion c r region) ((originRegions commits).getD []) := by
  induction commits using List.reverseRecOn with
  | nil => cases hir
  | append_singleton before last ih =>
    rw [originRegions_append, Option.getD_some]
    rcases Nat.lt_or_ge c before.length with hc | hc
    · -- an earlier commit: it was staged, and the merge keeps it
      rw [List.getElem?_append_left hc] at hir
      have hold := ih hir
      cases horigins : originRegions before with
      | none =>
        rw [horigins] at hold
        obtain ⟨_, hmem, _⟩ := hold
        cases hmem
      | some existing =>
        rw [horigins] at hold
        exact hold.mergeInfillIr _
    · -- the last commit
      have hlt := (List.getElem?_eq_some_iff.mp hir).1
      rw [List.length_append, List.length_singleton] at hlt
      obtain rfl : c = before.length := by omega
      rw [List.getElem?_concat_length] at hir
      cases hir
      have hmem : nameRegion before.length r region ∈ nameRegions before.length ir.regions := by
        apply List.mem_of_getElem? (i := r)
        rw [nameRegions, List.getElem?_mapIdx, hregion]
        rfl
      cases originRegions before with
      | none => exact within_of_mem hmem
      | some existing => exact within_mergeInfillIr_of_mem hmem existing

end PinchNPrint.Layer
