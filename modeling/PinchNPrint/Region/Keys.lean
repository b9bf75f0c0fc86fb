/-
The keys of the region map.

`Inserts` says of a part of region mapping which entries it adds, in order, and
that it stops at the cap only when these are too many. It is kept by sequences
and loops, so the whole mapping inserts the entries that `regionJobs` lists.

`region_map_has_planned_keys`: these are the planned ones. A chain picks at most
one of the object's values for each declared semantic, a footprint is a
cross-section of one of its modifiers, and nothing else is in the map.
-/

import PinchNPrint.Lib.Sequences
import PinchNPrint.Region.Mapping

namespace PinchNPrint.Region

open Config
open Layer (PaintValue RegionKey)

variable {F : Type}

/-! ### Chains -/

section Chains

variable {variants : BTreeMap String (List (PaintValue F))}

theorem length_buildChains (order : List String) (chain : VariantChain F) :
    (buildChains variants order chain).length =
      (order.map fun semantic => 1 + (variants[semantic]?.getD []).length).prod := by
  induction order generalizing chain with
  | nil => rfl
  | cons semantic order ih =>
    rw [buildChains, List.length_append, List.length_flatMap, ih, List.map_cons, List.prod_cons,
      Nat.add_mul, Nat.one_mul]
    congr 1
    rw [List.map_congr_left fun value _ => ih (chain ++ [(semantic, value)]), List.map_const',
      List.sum_replicate, smul_eq_mul]

/-- The chains are those that pick at most one value for each semantic, in the
order of the semantics. -/
theorem mem_buildChains {order : List String} {chain found : VariantChain F} :
    found ∈ buildChains variants order chain ↔ ∃ rest, found = chain ++ rest ∧
      (rest.map Prod.fst).Sublist order ∧
      ∀ entry ∈ rest, entry.2 ∈ variants[entry.1]?.getD [] := by
  induction order generalizing chain with
  | nil =>
    rw [buildChains, List.mem_singleton]
    constructor
    · rintro rfl
      exact ⟨[], (List.append_nil _).symm, .slnil, fun entry hentry => nomatch hentry⟩
    · rintro ⟨rest, rfl, hsub, -⟩
      rw [List.map_eq_nil_iff.mp (List.sublist_nil.mp hsub), List.append_nil]
  | cons semantic order ih =>
    rw [buildChains, List.mem_append, List.mem_flatMap]
    constructor
    · rintro (hfound | ⟨value, hvalue, hfound⟩)
      · obtain ⟨rest, rfl, hsub, hvalues⟩ := ih.mp hfound
        exact ⟨rest, rfl, hsub.cons _, hvalues⟩
      · obtain ⟨rest, rfl, hsub, hvalues⟩ := ih.mp hfound
        refine ⟨(semantic, value) :: rest, by rw [List.append_assoc]; rfl, hsub.cons_cons _, ?_⟩
        exact List.forall_mem_cons.mpr ⟨hvalue, hvalues⟩
    · rintro ⟨rest, rfl, hsub, hvalues⟩
      cases rest with
      | nil => exact .inl (ih.mpr ⟨[], rfl, List.nil_sublist _, hvalues⟩)
      | cons entry rest =>
        obtain ⟨hvalue, hvalues'⟩ := List.forall_mem_cons.mp hvalues
        rw [List.map_cons] at hsub
        cases hsub with
        | cons _ hsub => exact .inl (ih.mpr ⟨entry :: rest, rfl, hsub, hvalues⟩)
        | cons_cons _ hsub =>
          refine .inr ⟨entry.2, hvalue, ih.mpr ⟨rest, ?_, hsub, hvalues'⟩⟩
          rw [List.append_assoc]
          rfl

theorem nodup_buildChains {order : List String} (horder : order.Nodup)
    (hvalues : ∀ semantic ∈ order, (variants[semantic]?.getD []).Nodup) (chain : VariantChain F) :
    (buildChains variants order chain).Nodup := by
  induction order generalizing chain with
  | nil => exact List.nodup_singleton _
  | cons semantic order ih =>
    obtain ⟨hnew, horder⟩ := List.nodup_cons.mp horder
    obtain ⟨hvalue, hvalues⟩ := List.forall_mem_cons.mp hvalues
    rw [buildChains, List.nodup_append', List.nodup_flatMap]
    refine ⟨ih horder hvalues chain, ⟨fun value _ => ih horder hvalues _, ?_⟩, ?_⟩
    · refine hvalue.imp fun {a b} hab found ha hb => hab ?_
      obtain ⟨rest, rfl, -, -⟩ := mem_buildChains.mp ha
      obtain ⟨rest', heq, -, -⟩ := mem_buildChains.mp hb
      rw [List.append_assoc, List.append_assoc, List.append_cancel_left_eq] at heq
      exact congrArg Prod.snd (List.cons.inj heq).1
    · -- a chain without the semantic does not start with it
      intro found homit hpick
      obtain ⟨rest, rfl, hsub, -⟩ := mem_buildChains.mp homit
      obtain ⟨value, -, hpick⟩ := List.mem_flatMap.mp hpick
      obtain ⟨rest', heq, -, -⟩ := mem_buildChains.mp hpick
      rw [List.append_assoc, List.append_cancel_left_eq] at heq
      refine hnew (hsub.subset ?_)
      rw [heq]
      exact List.mem_map_of_mem (List.mem_cons_self ..)

end Chains

/-! ### Paint values -/

/-- The values of a semantic on an object, facet by facet. -/
def ObjectMesh.paintValues (object : ObjectMesh F) (semantic : String) : List (PaintValue F) :=
  (object.paintData.getD []).flatMap fun layer =>
    if paintSemanticNamespaceKey layer.semantic = semantic then layer.facetValues.reduceOption
    else []

/-- The object carries a value of a declared semantic. -/
def ObjectMesh.optsIn (object : ObjectMesh F) (declared : BTreeSet String) : Bool :=
  declared.toList.any fun semantic => !(object.paintValues semantic).isEmpty

/-- The values of a declared semantic on the object of an id; of several objects
with that id the last that opts in. -/
def objectValues (objects : List (ObjectMesh F)) (declared : BTreeSet String) (objectId : ObjectId)
    (semantic : String) : List (PaintValue F) :=
  ((objects.filter fun object => object.id == objectId && object.optsIn declared).getLast?.map
    (·.paintValues semantic)).getD []

section Scan

variable [FloatBits F] [DecidableEq F]

theorem mem_insertValue {values : List (PaintValue F)} {value v : PaintValue F} :
    v ∈ insertValue values value ↔ v = value ∨ v ∈ values := by
  unfold insertValue
  split
  case isTrue hmem =>
    constructor
    · exact .inr
    · rintro (rfl | hv)
      · exact hmem
      · exact hv
  case isFalse => exact List.mem_orderedInsert _

theorem nodup_insertValue {values : List (PaintValue F)} (h : values.Nodup) (value : PaintValue F) :
    (insertValue values value).Nodup := by
  unfold insertValue
  split
  case isTrue => exact h
  case isFalse hnew =>
    exact (List.perm_orderedInsert _ _ _).nodup_iff.mpr (List.nodup_cons.mpr ⟨hnew, h⟩)

/-- What has been found are these values, without repetition, and no semantic is
recorded without a value. -/
structure Found (found : BTreeMap String (List (PaintValue F)))
    (valuesOf : String → List (PaintValue F)) : Prop where
  nodup : ∀ semantic : String, (found[semantic]?.getD []).Nodup
  mem : ∀ (semantic : String) (value : PaintValue F),
    value ∈ found[semantic]?.getD [] ↔ value ∈ valuesOf semantic
  nonempty : ∀ semantic : String, found[semantic]? ≠ some []

variable {found : BTreeMap String (List (PaintValue F))} {valuesOf : String → List (PaintValue F)}
  {declared : BTreeSet String} {object : ObjectMesh F}

section

omit [FloatBits F] [DecidableEq F]

theorem Found.congr {valuesOf' : String → List (PaintValue F)} (h : Found found valuesOf)
    (hsame : ∀ semantic value, value ∈ valuesOf semantic ↔ value ∈ valuesOf' semantic) :
    Found found valuesOf' :=
  { h with mem := fun semantic value => (h.mem semantic value).trans (hsame semantic value) }

theorem Found.empty : Found (∅ : BTreeMap String (List (PaintValue F))) fun _ => [] where
  nodup semantic := by simp
  mem semantic value := by simp
  nonempty semantic := by simp

theorem Found.isEmpty_iff (h : Found found valuesOf) :
    found.isEmpty = true ↔ ∀ semantic, valuesOf semantic = [] := by
  constructor
  · intro hempty semantic
    refine List.eq_nil_iff_forall_not_mem.mpr fun value hvalue => ?_
    rw [Std.ExtTreeMap.isEmpty_iff.mp hempty] at h
    simpa using (h.mem semantic value).mpr hvalue
  · intro hnone
    refine Std.ExtTreeMap.isEmpty_iff.mpr (Std.ExtTreeMap.ext_getElem? fun semantic => ?_)
    rw [Std.ExtTreeMap.getElem?_empty]
    cases hvalues : found[semantic]? with
    | none => rfl
    | some values =>
      cases values with
      | nil => exact absurd hvalues (h.nonempty semantic)
      | cons value rest =>
        have := (h.mem semantic value).mp (by rw [hvalues]; exact List.mem_cons_self ..)
        rw [hnone semantic] at this
        cases this

end

theorem Found.insert (h : Found found valuesOf) (semantic : String) (value : PaintValue F) :
    Found (found.insert semantic (insertValue (found[semantic]?.getD []) value))
      fun s => valuesOf s ++ if s = semantic then [value] else [] where
  nodup s := by
    by_cases hs : semantic = s
    · subst hs
      rw [Std.ExtTreeMap.getElem?_insert_self]
      exact nodup_insertValue (h.nodup semantic) value
    · rw [BTreeMap.getElem?_insert_of_ne hs]
      exact h.nodup s
  mem s v := by
    by_cases hs : semantic = s
    · subst hs
      rw [Std.ExtTreeMap.getElem?_insert_self, Option.getD_some, mem_insertValue, h.mem, if_pos rfl,
        List.mem_append, List.mem_singleton, or_comm]
    · rw [BTreeMap.getElem?_insert_of_ne hs, if_neg fun heq => hs heq.symm, List.append_nil]
      exact h.mem s v
  nonempty s := by
    by_cases hs : semantic = s
    · subst hs
      rw [Std.ExtTreeMap.getElem?_insert_self]
      intro heq
      have hmem : value ∈ insertValue (found[semantic]?.getD []) value :=
        mem_insertValue.mpr (.inl rfl)
      rw [Option.some.inj heq] at hmem
      cases hmem
    · rw [BTreeMap.getElem?_insert_of_ne hs]
      exact h.nonempty s

/-- The cells of one layer. -/
theorem Found.scanCells {objectId : ObjectId} {semantic : String}
    {found' : BTreeMap String (List (PaintValue F))} {cells : List (Option (PaintValue F))}
    (hfound : Found found valuesOf)
    (h : cells.foldlM (scanCell objectId semantic) found = .ok found') :
    Found found' fun s => valuesOf s ++ if s = semantic then cells.reduceOption else [] := by
  induction cells generalizing found valuesOf with
  | nil =>
    cases h
    exact hfound.congr fun s value => by simp
  | cons cell cells ih =>
    rw [List.foldlM_cons] at h
    obtain ⟨next, hnext, h⟩ := Except.of_bind_eq_ok h
    match cell with
    | none =>
      cases hnext
      exact ih hfound h
    | some (.Scalar scalar) => cases hnext
    | some (.Flag _) | some (.ToolIndex _) | some (.Custom _) =>
      cases hnext
      refine (ih (hfound.insert semantic _) h).congr fun s value => ?_
      by_cases hs : s = semantic
      · simp [hs]
      · simp [hs]

theorem Found.scanLayers {objectId : ObjectId} {found' : BTreeMap String (List (PaintValue F))}
    {layers : List (PaintLayer F)} (hfound : Found found valuesOf)
    (h : layers.foldlM (scanLayer objectId declared) found = .ok found') :
    Found found' fun s => valuesOf s ++ if s ∈ declared then layers.flatMap fun layer =>
      if paintSemanticNamespaceKey layer.semantic = s then layer.facetValues.reduceOption else []
        else [] := by
  induction layers generalizing found valuesOf with
  | nil =>
    cases h
    exact hfound.congr fun s value => by simp
  | cons layer layers ih =>
    rw [List.foldlM_cons] at h
    obtain ⟨next, hnext, h⟩ := Except.of_bind_eq_ok h
    unfold scanLayer at hnext
    dsimp only at hnext
    split at hnext
    case isTrue hdeclared =>
      refine (ih (hfound.scanCells hnext) h).congr fun s value => ?_
      by_cases hs : paintSemanticNamespaceKey layer.semantic = s
      · simp [hs ▸ hdeclared, hs]
      · simp [hs, Ne.symm hs]
    case isFalse hdeclared =>
      cases hnext
      refine (ih hfound h).congr fun s value => ?_
      by_cases hs : paintSemanticNamespaceKey layer.semantic = s
      · simp [hs ▸ hdeclared]
      · simp [hs]

/-- The scan of one object, where it succeeds. -/
def scanned (declared : BTreeSet String) (object : ObjectMesh F) :
    BTreeMap String (List (PaintValue F)) :=
  ((object.paintData.getD []).foldlM (scanLayer object.id declared) ∅).toOption.getD ∅

theorem found_scanned
    (h : (object.paintData.getD []).foldlM (scanLayer object.id declared) ∅ = .ok found) :
    Found (scanned declared object) fun s =>
      if s ∈ declared then object.paintValues s else [] := by
  rw [scanned, h]
  exact (Found.empty.scanLayers h).congr fun s value => by rw [List.nil_append]; rfl

omit [FloatBits F] [DecidableEq F] in
theorem optsIn_iff : object.optsIn declared = true ↔ ∃ s ∈ declared, object.paintValues s ≠ [] := by
  simp only [ObjectMesh.optsIn, List.any_eq_true, Std.ExtTreeSet.mem_toList, Bool.not_eq_true',
    List.isEmpty_eq_false_iff]

theorem scanObject_getElem? {out out' : BTreeMap ObjectId (BTreeMap String (List (PaintValue F)))}
    (h : scanObject declared out object = .ok out') (objectId : ObjectId) :
    (∃ found, (object.paintData.getD []).foldlM (scanLayer object.id declared) ∅ = .ok found) ∧
    out'[objectId]? = (if object.id == objectId && object.optsIn declared then
      some (scanned declared object) else none).or out[objectId]? := by
  unfold scanObject at h
  cases hdata : object.paintData with
  | none =>
    rw [hdata] at h
    cases h
    have hopts : object.optsIn declared = false := by
      rw [Bool.eq_false_iff, ne_eq, optsIn_iff]
      rintro ⟨s, -, hs⟩
      rw [ObjectMesh.paintValues, hdata] at hs
      exact hs rfl
    rw [hopts, Bool.and_false]
    exact ⟨⟨∅, rfl⟩, rfl⟩
  | some layers =>
    rw [hdata] at h
    obtain ⟨found, hfound, h⟩ := Except.of_bind_eq_ok h
    cases h
    have hscan : (object.paintData.getD []).foldlM (scanLayer object.id declared) ∅ = .ok found := by
      rw [hdata]
      exact hfound
    have hspec := found_scanned hscan
    have heq : scanned declared object = found := by
      rw [scanned, hscan]
      rfl
    have hopts : object.optsIn declared = !found.isEmpty := by
      rw [Bool.eq_iff_iff, optsIn_iff, Bool.not_eq_true', ← heq, Bool.eq_false_iff, ne_eq,
        hspec.isEmpty_iff, not_forall]
      refine exists_congr fun s => ?_
      by_cases hs : s ∈ declared
      · simp [hs]
      · simp [hs]
    refine ⟨⟨found, hfound⟩, ?_⟩
    rw [hopts, heq]
    by_cases hempty : found.isEmpty = true
    · simp [hempty]
    · by_cases hid : object.id = objectId
      · subst hid
        simp [hempty]
      · rw [if_neg (by simpa using hempty), BTreeMap.getElem?_insert_of_ne hid]
        simp [hid]

theorem scanPaintData_spec {objects : List (ObjectMesh F)}
    {variants : BTreeMap ObjectId (BTreeMap String (List (PaintValue F)))}
    (h : scanPaintData objects declared = .ok variants) (objectId : ObjectId) (semantic : String)
    (hsemantic : semantic ∈ declared) :
    ((variants[objectId]?.getD ∅)[semantic]?.getD []).Nodup ∧
      ∀ value, value ∈ (variants[objectId]?.getD ∅)[semantic]?.getD [] ↔
        value ∈ objectValues objects declared objectId semantic := by
  have hlast := @Except.foldlM_last _ _ _ _ _ (fun out => out[objectId]?) _
    (fun s a s' hstep => (scanObject_getElem? hstep objectId).2) _ _ _ h
  rw [Std.ExtTreeMap.getElem?_empty, Option.or_none, List.filterMap_ite_some,
    List.getLast?_map] at hlast
  rw [hlast, objectValues]
  cases hobject : (objects.filter fun object =>
      object.id == objectId && object.optsIn declared).getLast? with
  | none => simp
  | some object =>
    have hmem := (List.mem_filter.mp (List.mem_of_getLast? hobject)).1
    obtain ⟨t, t', hstep⟩ := Except.step_of_foldlM_eq_ok h hmem
    obtain ⟨⟨found, hfound⟩, -⟩ := scanObject_getElem? hstep objectId
    have hspec := found_scanned hfound
    refine ⟨hspec.nodup semantic, fun value => ?_⟩
    refine (hspec.mem semantic value).trans ?_
    rw [if_pos hsemantic]
    rfl

end Scan

/-! ### Footprints -/

section Footprints

variable {sliceMeshEx : IndexedTriangleSet F → List F → List (List ExPolygon)} {z : F}

theorem joinGroup_cons (group : List ExPolygon × List (ModifierVolume F))
    (groups : List (List ExPolygon × List (ModifierVolume F))) (footprint : List ExPolygon)
    (modifier : ModifierVolume F) :
    joinGroup (group :: groups) footprint modifier =
      if group.1 = footprint then (group.1, group.2 ++ [modifier]) :: groups
      else group :: joinGroup groups footprint modifier := by
  unfold joinGroup
  rw [List.findIdx?_cons]
  by_cases heq : group.1 = footprint
  · simp [heq]
  · cases hfind : groups.findIdx? (·.1 == footprint) with
    | none => simp [heq]
    | some i => simp [heq]

/-- The groups of some modifiers: one for each footprint, with the modifiers that
have it. -/
structure Grouped (sliceMeshEx : IndexedTriangleSet F → List F → List (List ExPolygon)) (z : F)
    (modifiers : List (ModifierVolume F))
    (groups : List (List ExPolygon × List (ModifierVolume F))) : Prop where
  nodup : (groups.map Prod.fst).Nodup
  mem : ∀ footprint, footprint ∈ groups.map Prod.fst ↔
    ∃ modifier ∈ modifiers, modifierFootprint sliceMeshEx z modifier = some footprint
  members : ∀ group ∈ groups, group.2 =
    modifiers.filter fun modifier => modifierFootprint sliceMeshEx z modifier == some group.1

variable {groups : List (List ExPolygon × List (ModifierVolume F))}

theorem mem_map_fst_joinGroup {footprint fp : List ExPolygon} {modifier : ModifierVolume F} :
    fp ∈ (joinGroup groups footprint modifier).map Prod.fst ↔
      fp ∈ groups.map Prod.fst ∨ fp = footprint := by
  induction groups with
  | nil => simp [joinGroup]
  | cons group groups ih =>
    rw [joinGroup_cons]
    split
    case isTrue heq =>
      subst heq
      simp only [List.map_cons, List.mem_cons]
      tauto
    case isFalse =>
      simp only [List.map_cons, List.mem_cons, ih]
      tauto

theorem nodup_joinGroup (h : (groups.map Prod.fst).Nodup) (footprint : List ExPolygon)
    (modifier : ModifierVolume F) : ((joinGroup groups footprint modifier).map Prod.fst).Nodup := by
  induction groups with
  | nil => exact List.nodup_singleton _
  | cons group groups ih =>
    rw [List.map_cons, List.nodup_cons] at h
    rw [joinGroup_cons]
    split
    case isTrue => exact List.nodup_cons.mpr h
    case isFalse hne =>
      refine List.nodup_cons.mpr ⟨fun hmem => ?_, ih h.2⟩
      rcases mem_map_fst_joinGroup.mp hmem with hmem | heq
      · exact h.1 hmem
      · exact hne heq

/-- A group after a join: the members it had, and the new one where it belongs. -/
theorem mem_joinGroup (h : (groups.map Prod.fst).Nodup) {footprint : List ExPolygon}
    {modifier : ModifierVolume F} {group : List ExPolygon × List (ModifierVolume F)}
    (hgroup : group ∈ joinGroup groups footprint modifier) :
    ∃ members, group.2 = members ++ (if footprint = group.1 then [modifier] else []) ∧
      ((group.1, members) ∈ groups ∨
        (members = [] ∧ group.1 = footprint ∧ footprint ∉ groups.map Prod.fst)) := by
  induction groups with
  | nil =>
    cases List.mem_singleton.mp hgroup
    exact ⟨[], by simp, .inr ⟨rfl, rfl, by simp⟩⟩
  | cons first groups ih =>
    rw [List.map_cons, List.nodup_cons] at h
    rw [joinGroup_cons] at hgroup
    split at hgroup
    case isTrue heq =>
      rcases List.mem_cons.mp hgroup with rfl | hgroup
      · exact ⟨first.2, by simp [heq], .inl (List.mem_cons_self ..)⟩
      · refine ⟨group.2, ?_, .inl (List.mem_cons_of_mem _ hgroup)⟩
        rw [if_neg, List.append_nil]
        rintro rfl
        exact h.1 (heq ▸ List.mem_map_of_mem hgroup)
    case isFalse hne =>
      rcases List.mem_cons.mp hgroup with rfl | hgroup
      · refine ⟨group.2, ?_, .inl (List.mem_cons_self ..)⟩
        rw [if_neg fun heq => hne heq.symm, List.append_nil]
      · obtain ⟨members, hmembers, hold | ⟨hnil, heq, hnew⟩⟩ := ih h.2 hgroup
        · exact ⟨members, hmembers, .inl (List.mem_cons_of_mem _ hold)⟩
        · refine ⟨members, hmembers, .inr ⟨hnil, heq, ?_⟩⟩
          rw [List.map_cons, List.mem_cons, not_or]
          exact ⟨fun hfirst => hne hfirst.symm, hnew⟩

theorem Grouped.step {modifiers : List (ModifierVolume F)}
    (h : Grouped sliceMeshEx z modifiers groups) (modifier : ModifierVolume F) :
    Grouped sliceMeshEx z (modifiers ++ [modifier])
      (match modifierFootprint sliceMeshEx z modifier with
        | none => groups
        | some footprint => joinGroup groups footprint modifier) := by
  cases hfootprint : modifierFootprint sliceMeshEx z modifier with
  | none =>
    refine ⟨h.nodup, fun fp => ?_, fun group hgroup => ?_⟩
    · rw [h.mem]
      simp [hfootprint, or_and_right, exists_or]
    · rw [h.members group hgroup, List.filter_append]
      simp [hfootprint]
  | some footprint =>
    refine ⟨nodup_joinGroup h.nodup _ _, fun fp => ?_, fun group hgroup => ?_⟩
    · rw [mem_map_fst_joinGroup, h.mem]
      simp [hfootprint, or_and_right, exists_or, eq_comm]
    · obtain ⟨members, hmembers, hold | ⟨rfl, heq, hnew⟩⟩ := mem_joinGroup h.nodup hgroup
      · have hbefore : members = modifiers.filter fun m =>
            modifierFootprint sliceMeshEx z m == some group.1 := h.members _ hold
        rw [hmembers, hbefore, List.filter_append]
        by_cases hsame : footprint = group.1
        · simp [hfootprint, hsame]
        · simp [hfootprint, hsame]
      · -- no modifier had this footprint before
        have hnone : modifiers.filter (fun m => modifierFootprint sliceMeshEx z m ==
            some footprint) = [] := by
          rw [List.filter_eq_nil_iff]
          intro m hm hsame
          exact hnew ((h.mem footprint).mpr ⟨m, hm, eq_of_beq hsame⟩)
        rw [hmembers, heq, List.filter_append, hnone]
        simp [hfootprint]

theorem grouped_modifierFootprintGroups (object : ObjectMesh F) :
    Grouped sliceMeshEx z object.modifierVolumes
      (modifierFootprintGroups sliceMeshEx object z) := by
  unfold modifierFootprintGroups
  suffices h : ∀ (rest done : List (ModifierVolume F)) groups, Grouped sliceMeshEx z done groups →
      Grouped sliceMeshEx z (done ++ rest) (rest.foldl (fun groups modifier =>
        match modifierFootprint sliceMeshEx z modifier with
        | none => groups
        | some footprint => joinGroup groups footprint modifier) groups) from
    h object.modifierVolumes [] [] ⟨List.nodup_nil, by simp, by simp⟩
  intro rest
  induction rest with
  | nil =>
    intro done groups h
    rwa [List.append_nil]
  | cons modifier rest ih =>
    intro done groups h
    have := ih (done ++ [modifier]) _ (h.step modifier)
    rwa [List.append_assoc] at this

end Footprints

/-! ### Inserts -/

section Inserts

variable [Floats F] [DecidableEq F] {cap : Nat}

/-- A part of region mapping. -/
abbrev Step (F : Type) [Floats F] :=
  RegionMapIR F → Except (RegionMappingError F) (RegionMapIR F)

/-- An entry to insert: the computation of its key and its config. -/
abbrev Job (F : Type) :=
  Except (RegionMappingError F) (RegionKey F × ResolvedConfig F)

/-- The pool has the config at the index, or one that is equal to it. -/
def Pooled (configs : List (ResolvedConfig F)) (id : Nat) (config : ResolvedConfig F) : Prop :=
  ∃ pooled, configs[id]? = some pooled ∧ (pooled = config ∨ sameConfig pooled config = true)

/-- The entry was made for the job. -/
def Made (configs : List (ResolvedConfig F)) (job : Job F) (entry : RegionKey F × RegionPlan F) :
    Prop :=
  ∃ config, job = .ok (entry.1, config) ∧ Pooled configs entry.2.config config

/-- What holds of the map throughout. -/
structure Sound (cap : Nat) (map : RegionMapIR F) : Prop where
  nodup : (map.entries.map Prod.fst).Nodup
  le_cap : map.entries.length ≤ cap
  inRange : ∀ entry ∈ map.entries, entry.2.config < map.configs.length
  distinct : map.configs.Pairwise fun a b => sameConfig a b = false

def IsCapError : RegionMappingError F → Prop
  | .CapExceeded .. => True
  | _ => False

/-- An error that the paint data or the config resolution causes. -/
def IsInputError : RegionMappingError F → Prop
  | .ScalarInRegionSplitFacetValue .. | .Resolution _ => True
  | _ => False

variable {error : RegionMappingError F} {configs : List (ResolvedConfig F)} {map : RegionMapIR F}

omit [Floats F] [DecidableEq F] in
theorem IsInputError.not_cap (h : IsInputError error) : ¬ IsCapError error := by
  cases error with
  | CapExceeded => exact fun _ => h
  | _ => exact id

/-- The step inserts an entry for each job, in order, or stops at the cap because
there are too many. -/
structure Inserts (cap : Nat) (step : Step F) (jobs : List (Job F)) : Prop where
  ok : ∀ map map', Sound cap map → step map = .ok map' → Sound cap map' ∧
    map.configs <+: map'.configs ∧
    ∃ made, map'.entries = map.entries ++ made ∧ List.Forall₂ (Made map'.configs) jobs made
  capped : ∀ map error, Sound cap map → IsCapError error → step map = .error error →
    cap < map.entries.length + jobs.length

omit [Floats F] in
theorem Pooled.mono {configs' : List (ResolvedConfig F)} {id : Nat} {config : ResolvedConfig F}
    (h : Pooled configs id config) (hbegins : configs <+: configs') :
    Pooled configs' id config := by
  obtain ⟨pooled, hpooled, hsame⟩ := h
  obtain ⟨rest, rfl⟩ := hbegins
  refine ⟨pooled, ?_, hsame⟩
  exact (List.getElem?_append_left (List.getElem?_eq_some_iff.mp hpooled).1).trans hpooled

omit [Floats F] in
theorem Made.mono {configs' : List (ResolvedConfig F)} {job : Job F}
    {entry : RegionKey F × RegionPlan F} (h : Made configs job entry)
    (hbegins : configs <+: configs') : Made configs' job entry := by
  obtain ⟨config, hjob, hpooled⟩ := h
  exact ⟨config, hjob, hpooled.mono hbegins⟩

theorem Inserts.nothing : Inserts cap (.ok : Step F) [] where
  ok map map' hsound h := by
    cases h
    exact ⟨hsound, List.prefix_rfl, [], (List.append_nil _).symm, .nil⟩
  capped map error _ _ h := by cases h

/-- A step that fails for another reason inserts anything. -/
theorem Inserts.fails (h : ¬ IsCapError error) (jobs : List (Job F)) :
    Inserts cap (fun _ => .error error) jobs where
  ok map map' _ hstep := by cases hstep
  capped map error' _ hcap hstep := by
    cases hstep
    exact absurd hcap h

/-- A step with an id whose function may panic. -/
theorem Inserts.orPanic {id : Option Nat} {message : String} {step : Nat → Step F}
    {jobs : List (Job F)} (h : ∀ i, id = some i → Inserts cap (step i) jobs) :
    Inserts cap (fun map => Region.orPanic (.Panicked message) id >>= fun i => step i map) jobs := by
  cases id with
  | none =>
    have hpanic : ¬ IsCapError (.Panicked message : RegionMappingError F) := not_false
    exact .fails hpanic jobs
  | some i => exact h i rfl

theorem Inserts.andThen {first second : Step F} {jobs jobs' : List (Job F)}
    (hfirst : Inserts cap first jobs) (hsecond : Inserts cap second jobs') :
    Inserts cap (fun map => first map >>= second) (jobs ++ jobs') where
  ok map map' hsound h := by
    obtain ⟨mid, hmid, h⟩ := Except.of_bind_eq_ok h
    obtain ⟨hsound', hbegins, made, hentries, hmade⟩ := hfirst.ok map mid hsound hmid
    obtain ⟨hsound'', hbegins', made', hentries', hmade'⟩ := hsecond.ok mid map' hsound' h
    refine ⟨hsound'', hbegins.trans hbegins', made ++ made', ?_, ?_⟩
    · rw [hentries', hentries, List.append_assoc]
    · exact List.rel_append (hmade.imp fun _ _ hmade => hmade.mono hbegins') hmade'
  capped map error hsound hcap h := by
    rw [List.length_append]
    cases hmid : first map with
    | error e =>
      rw [hmid] at h
      cases h
      have := hfirst.capped map error hsound hcap hmid
      omega
    | ok mid =>
      rw [hmid] at h
      obtain ⟨hsound', -, made, hentries, hmade⟩ := hfirst.ok map mid hsound hmid
      have := hsecond.capped mid error hsound' hcap h
      rw [hentries, List.length_append, ← hmade.length_eq] at this
      omega

theorem Inserts.forEach {α : Type} {step : RegionMapIR F → α → Except _ (RegionMapIR F)}
    {jobs : α → List (Job F)} {l : List α}
    (h : ∀ a ∈ l, Inserts cap (fun map => step map a) (jobs a)) :
    Inserts cap (fun map => l.foldlM step map) (l.flatMap jobs) := by
  induction l with
  | nil => exact .nothing
  | cons a rest ih =>
    rw [List.flatMap_cons]
    simp only [List.foldlM_cons]
    obtain ⟨hfirst, hrest⟩ := List.forall_mem_cons.mp h
    exact hfirst.andThen (ih hrest)

/-! ### One entry -/

theorem internConfig_spec (hsound : Sound cap map) (config : ResolvedConfig F) :
    Sound cap (map.internConfig config).1 ∧
      map.configs <+: (map.internConfig config).1.configs ∧
      (map.internConfig config).1.entries = map.entries ∧
      Pooled (map.internConfig config).1.configs (map.internConfig config).2 config := by
  unfold RegionMapIR.internConfig
  cases hfind : map.configs.findIdx? (sameConfig · config) with
  | some i =>
    obtain ⟨hi, hsame, -⟩ := List.findIdx?_eq_some_iff_getElem.mp hfind
    exact ⟨hsound, List.prefix_rfl, rfl, _, List.getElem?_eq_getElem hi, .inr hsame⟩
  | none =>
    refine ⟨⟨hsound.nodup, hsound.le_cap, fun entry hentry => ?_, ?_⟩, List.prefix_append ..,
      rfl, config, List.getElem?_concat_length, .inl rfl⟩
    · rw [List.length_append]
      exact Nat.lt_add_right _ (hsound.inRange entry hentry)
    · rw [List.pairwise_append]
      refine ⟨hsound.distinct, List.pairwise_singleton .., fun a ha b hb => ?_⟩
      rw [List.mem_singleton.mp hb]
      exact List.findIdx?_eq_none_iff.mp hfind a ha

omit [Floats F] in
theorem Pooled.lt {id : Nat} {config : ResolvedConfig F} (h : Pooled configs id config) :
    id < configs.length := by
  obtain ⟨pooled, hpooled, -⟩ := h
  exact (List.getElem?_eq_some_iff.mp hpooled).1

omit [DecidableEq F] in
theorem checkCap_ok {u : Unit} (h : map.checkCap cap = .ok u) : map.entries.length < cap := by
  unfold RegionMapIR.checkCap at h
  split at h
  case isTrue => cases h
  case isFalse hlt => exact Nat.not_le.mp hlt

omit [DecidableEq F] in
theorem checkCap_error (h : map.checkCap cap = .error error) : cap ≤ map.entries.length := by
  unfold RegionMapIR.checkCap at h
  split at h
  case isTrue hle => exact hle
  case isFalse => cases h

theorem checkCap_internConfig (map : RegionMapIR F) (config : ResolvedConfig F) (cap : Nat) :
    (map.internConfig config).1.checkCap cap = map.checkCap cap := by
  unfold RegionMapIR.internConfig
  split <;> rfl

theorem not_isCapError_insertEntry {key : RegionKey F} {plan : RegionPlan F}
    (h : map.insertEntry key plan = .error error) : ¬ IsCapError error := by
  unfold RegionMapIR.insertEntry at h
  split at h
  case isTrue =>
    cases h
    exact id
  case isFalse => cases h

theorem inserts_entry (key : RegionKey F) (config : ResolvedConfig F)
    (paintOverrides : BTreeMap PaintSemantic (ResolvedConfig F)) :
    Inserts cap (fun map => do
      map.checkCap cap
      (map.internConfig config).1.insertEntry key ⟨(map.internConfig config).2, paintOverrides⟩)
      [.ok (key, config)] where
  ok map map' hsound h := by
    obtain ⟨_, hcheck, h⟩ := Except.of_bind_eq_ok h
    have hlt := checkCap_ok hcheck
    obtain ⟨hsound', hbegins, hentries, hpooled⟩ := internConfig_spec hsound config
    unfold RegionMapIR.insertEntry at h
    split at h
    case isTrue => cases h
    case isFalse hnew =>
      cases h
      refine ⟨⟨?_, ?_, ?_, hsound'.distinct⟩, hbegins, _, congrArg (· ++ _) hentries,
        .cons ⟨config, rfl, hpooled⟩ .nil⟩
      · rw [List.map_append, List.nodup_append']
        exact ⟨hsound'.nodup, List.nodup_singleton _, by simpa using hnew⟩
      · rw [List.length_append, hentries]
        exact hlt
      · intro entry hentry
        rcases List.mem_append.mp hentry with hold | hnew'
        · exact hsound'.inRange entry hold
        · rw [List.mem_singleton.mp hnew']
          exact hpooled.lt
  capped map error _ hcap h := by
    cases hcheck : map.checkCap cap with
    | error e => exact Nat.lt_succ_of_le (checkCap_error hcheck)
    | ok u =>
      rw [hcheck] at h
      exact absurd hcap (not_isCapError_insertEntry h)

/-- Something else fails after the cap was checked. -/
theorem inserts_checked_fails (h : ¬ IsCapError error) (job : Job F) :
    Inserts cap (fun map : RegionMapIR F => map.checkCap cap >>= fun _ => .error error) [job] where
  ok map map' _ hstep := by
    obtain ⟨_, -, hstep⟩ := Except.of_bind_eq_ok hstep
    cases hstep
  capped map error' _ hcap hstep := by
    cases hcheck : map.checkCap cap with
    | error e => exact Nat.lt_succ_of_le (checkCap_error hcheck)
    | ok u =>
      rw [hcheck] at hstep
      cases hstep
      exact absurd hcap h

end Inserts

/-! ### The entries of a region -/

section Jobs

variable [Floats F] [FloatBits F] [DecidableEq F] (input : RegionMappingInput F)

/-- The id of a modifier child of a region, painted or not. -/
def childRegionId (region : ActiveRegion F) (chain : VariantChain F) (footprint : List ExPolygon) :
    Option Nat :=
  (paintVariantRegionId region.regionId chain).bind
    (modifierSubRegionId · region.objectId footprint)

/-- The entry of a modifier child. -/
def childJob (layer : GlobalLayer F) (region : ActiveRegion F) (chain : VariantChain F)
    (group : List ExPolygon × List (ModifierVolume F)) :
    Except (RegionMappingError F) (RegionKey F × ResolvedConfig F) := do
  let id ← orPanic (.Panicked "modifier sub-region id payload overflow")
    (childRegionId region chain group.1)
  let config ← childConfig input layer region group.2 chain (lastChainTool chain)
  .ok (entryKey layer region id chain, config)

/-- The entry of a base or painted region. -/
def chainJob (layer : GlobalLayer F) (region : ActiveRegion F) (chain : VariantChain F) :
    Except (RegionMappingError F) (RegionKey F × ResolvedConfig F) := do
  let config ← effectiveConfig input layer region chain
  .ok (entryKey layer region region.regionId chain, config)

/-- The entries of a chain of a region. -/
def chainJobs (layer : GlobalLayer F) (region : ActiveRegion F) (chain : VariantChain F) :
    List (Job F) :=
  (regionGroups input layer region).map (childJob input layer region chain) ++
    [chainJob input layer region chain]

variable {input} {layer : GlobalLayer F} {region : ActiveRegion F} {chain : VariantChain F}

section

omit [FloatBits F]

theorem resolvedTargetConfigForLayer_failsWith {target : ResolutionTarget F} {z : F} :
    Except.FailsWith IsInputError (resolvedTargetConfigForLayer input target z) := by
  intro error h
  unfold resolvedTargetConfigForLayer at h
  dsimp only at h
  split at h
  · cases h
  · split at h
    · obtain ⟨cause, -, rfl⟩ := Except.of_mapError_eq_error h
      exact trivial
    · cases h

theorem childConfig_failsWith {modifiers : List (ModifierVolume F)} {tool : Option Nat} :
    Except.FailsWith IsInputError (childConfig input layer region modifiers chain tool) :=
  resolvedTargetConfigForLayer_failsWith.bind fun _ => .pure _

theorem effectiveConfig_failsWith :
    Except.FailsWith IsInputError (effectiveConfig input layer region chain) :=
  resolvedTargetConfigForLayer_failsWith.bind fun _ => .pure _

end

variable {group : List ExPolygon × List (ModifierVolume F)}
  {variants : BTreeMap ObjectId (BTreeMap String (List (PaintValue F)))} {map : RegionMapIR F}

theorem childJob_eq {id : Nat} (h : childRegionId region chain group.1 = some id) :
    childJob input layer region chain group =
      (childConfig input layer region group.2 chain (lastChainTool chain)).map fun config =>
        (entryKey layer region id chain, config) := by
  rw [childJob, h]
  rfl

theorem inserts_insertModifierEntry (group : List ExPolygon × List (ModifierVolume F)) :
    Inserts input.cap (fun map => insertModifierEntry input layer region map group)
      [childJob input layer region [] group] := by
  unfold insertModifierEntry
  split
  case isTrue => exact .fails id _
  case isFalse =>
    refine .orPanic fun subId hid => ?_
    have hchild : childRegionId region [] group.1 = some subId := by
      rw [childRegionId, paintVariantRegionId, List.isEmpty_nil, if_pos rfl, Option.bind_some, hid]
    have htool : lastChainTool ([] : VariantChain F) = none := rfl
    rw [childJob_eq hchild, htool]
    cases hconfig : childConfig input layer region group.2 [] none with
    | error e => exact inserts_checked_fails (childConfig_failsWith _ hconfig).not_cap _
    | ok config => exact inserts_entry _ config _

theorem inserts_insertPaintedModifierEntry {parentRegionId : Nat}
    (hparent : paintVariantRegionId region.regionId chain = some parentRegionId)
    (group : List ExPolygon × List (ModifierVolume F)) :
    Inserts input.cap
      (fun map => insertPaintedModifierEntry input layer region chain parentRegionId map group)
      [childJob input layer region chain group] := by
  unfold insertPaintedModifierEntry
  refine .orPanic fun subId hid => ?_
  have hchild : childRegionId region chain group.1 = some subId := by
    rw [childRegionId, hparent, Option.bind_some, hid]
  rw [childJob_eq hchild]
  cases hconfig : childConfig input layer region group.2 chain (lastChainTool chain) with
  | error e => exact .fails (childConfig_failsWith _ hconfig).not_cap _
  | ok config => exact inserts_entry _ config _

theorem inserts_insertPaintedModifierEntries :
    Inserts input.cap (insertPaintedModifierEntries input layer region chain)
      (if chain = [] then [] else
        (regionGroups input layer region).map (childJob input layer region chain)) := by
  unfold insertPaintedModifierEntries
  dsimp only
  by_cases hchain : chain = []
  · subst hchain
    exact .nothing
  · rw [if_neg hchain, List.isEmpty_eq_false_iff.mpr hchain, Bool.false_or]
    cases hgroups : (regionGroups input layer region).isEmpty with
    | true =>
      rw [List.isEmpty_iff.mp hgroups]
      exact .nothing
    | false =>
      simp only [Bool.false_eq_true, if_false]
      refine .orPanic fun parentRegionId hparent => ?_
      split
      case isTrue => exact .fails id _
      case isFalse =>
        rw [List.map_eq_flatMap]
        exact .forEach fun group _ => inserts_insertPaintedModifierEntry hparent group

omit [FloatBits F] in
theorem inserts_insertChainEntry {effective : ResolvedConfig F}
    (heffective : effectiveConfig input layer region chain = .ok effective) :
    Inserts input.cap (insertChainEntry input layer region chain effective)
      [chainJob input layer region chain] := by
  have hstep : insertChainEntry input layer region chain effective = fun map =>
      map.checkCap input.cap >>= fun _ => (map.internConfig effective).1.insertEntry
        (entryKey layer region region.regionId chain)
        ⟨(map.internConfig effective).2, .ofList (chainOverrides input chain) compare⟩ := by
    funext map
    rw [← checkCap_internConfig map effective]
    rfl
  rw [hstep, chainJob, heffective]
  exact inserts_entry _ effective _

theorem inserts_mapChain (layer : GlobalLayer F) (region : ActiveRegion F)
    (chain : VariantChain F) :
    Inserts input.cap (fun map => mapChain input layer region map chain)
      ((if chain = [] then [] else
        (regionGroups input layer region).map (childJob input layer region chain)) ++
          [chainJob input layer region chain]) := by
  unfold mapChain
  cases heffective : effectiveConfig input layer region chain with
  | error e => exact .fails (effectiveConfig_failsWith _ heffective).not_cap _
  | ok effective =>
    exact inserts_insertPaintedModifierEntries.andThen (inserts_insertChainEntry heffective)

omit [Floats F] [FloatBits F] [DecidableEq F] in
/-- The chain itself comes first. -/
theorem buildChains_eq_cons (variants : BTreeMap String (List (PaintValue F))) (order : List String)
    (chain : VariantChain F) : ∃ rest, buildChains variants order chain = chain :: rest := by
  induction order with
  | nil => exact ⟨[], rfl⟩
  | cons semantic order ih =>
    obtain ⟨rest, hrest⟩ := ih
    rw [buildChains, hrest]
    exact ⟨_, List.cons_append⟩

/-- The children of the unpainted region come before its entry, so every chain has
its children and then its entry. -/
theorem inserts_mapRegion (hchains : (objectChains input variants region.objectId).Nodup) :
    Inserts input.cap (fun map => mapRegion input variants layer map region)
      ((objectChains input variants region.objectId).flatMap (chainJobs input layer region)) := by
  have hbase : Inserts input.cap
      (fun map => (regionGroups input layer region).foldlM (insertModifierEntry input layer region) map)
      ((regionGroups input layer region).map (childJob input layer region [])) := by
    rw [List.map_eq_flatMap]
    exact .forEach fun group _ => inserts_insertModifierEntry group
  have hrest := hbase.andThen (.forEach (l := objectChains input variants region.objectId)
    fun chain _ => inserts_mapChain layer region chain)
  refine Eq.mp (congrArg (Inserts _ _) ?_) hrest
  obtain ⟨rest, heq⟩ := buildChains_eq_cons (variants[region.objectId]?.getD ∅)
    input.aggregatedRegionSplit.toList []
  have hcons : objectChains input variants region.objectId = [] :: rest := heq
  rw [hcons] at hchains ⊢
  rw [List.flatMap_cons, List.flatMap_cons, if_pos rfl, List.nil_append, ← List.append_assoc]
  congr 1
  refine List.flatMap_congr fun chain hchain => ?_
  rw [if_neg, chainJobs]
  rintro rfl
  exact (List.nodup_cons.mp hchains).1 hchain

/-! ### The whole map -/

variable (input) in
/-- The entries of the map, in the order of their insertion. -/
def mappingJobs (variants : BTreeMap ObjectId (BTreeMap String (List (PaintValue F)))) :
    List (Job F) :=
  input.globalLayers.flatMap fun layer => layer.activeRegions.flatMap fun region =>
    (objectChains input variants region.objectId).flatMap (chainJobs input layer region)

omit [Floats F] in
theorem nodup_objectChains
    (h : scanPaintData input.objects input.aggregatedRegionSplit = .ok variants)
    (objectId : ObjectId) : (objectChains input variants objectId).Nodup := by
  refine nodup_buildChains (BTreeSet.nodup_toList _) (fun semantic hsemantic => ?_) []
  exact (scanPaintData_spec h objectId semantic (Std.ExtTreeSet.mem_toList.mp hsemantic)).1

omit [FloatBits F] in
theorem sound_empty : Sound cap ({} : RegionMapIR F) where
  nodup := List.nodup_nil
  le_cap := Nat.zero_le _
  inRange _ hentry := nomatch hentry
  distinct := List.pairwise_singleton ..

omit [Floats F] in
theorem scanPaintData_failsWith {objects : List (ObjectMesh F)} {declared : BTreeSet String} :
    Except.FailsWith IsInputError (scanPaintData objects declared) := by
  refine Except.FailsWith.foldlM (fun object _ out => ?_) ∅
  unfold scanObject
  cases object.paintData with
  | none => exact .pure _
  | some layers =>
    refine Except.FailsWith.bind (Except.FailsWith.foldlM (fun layer _ found => ?_) ∅)
      fun found => .pure _
    unfold scanLayer
    dsimp only
    split
    case isTrue =>
      refine Except.FailsWith.foldlM (fun cell _ found => ?_) found
      match cell with
      | none => exact .pure _
      | some (.Scalar _) =>
        intro e he
        cases he
        exact trivial
      | some (.Flag _) | some (.ToolIndex _) | some (.Custom _) => exact .pure _
    case isFalse => exact .pure _

theorem inserts_mapping (h : scanPaintData input.objects input.aggregatedRegionSplit = .ok variants)
    :
    Inserts input.cap (fun map => input.globalLayers.foldlM (fun map layer =>
      layer.activeRegions.foldlM (mapRegion input variants layer) map) map)
      (mappingJobs input variants) :=
  .forEach fun _ _ => .forEach fun _ _ => inserts_mapRegion (nodup_objectChains h _)

/-- A successful mapping has an entry for each job. -/
theorem executeRegionMapping_ok (h : executeRegionMapping input = .ok map) :
    ∃ variants, scanPaintData input.objects input.aggregatedRegionSplit = .ok variants ∧
      Sound input.cap map ∧ List.Forall₂ (Made map.configs) (mappingJobs input variants)
        map.entries := by
  unfold executeRegionMapping at h
  obtain ⟨_, -, h⟩ := Except.of_bind_eq_ok h
  obtain ⟨variants, hvariants, h⟩ := Except.of_bind_eq_ok h
  obtain ⟨hsound, -, made, hentries, hmade⟩ := (inserts_mapping hvariants).ok {} map sound_empty h
  refine ⟨variants, hvariants, hsound, ?_⟩
  rw [hentries]
  exact hmade

/-! ### Planned keys -/

variable (input)

/-- The footprints of the modifiers of a region, one for each modifier that has
one; a modifier region has none. -/
def regionFootprints (layer : GlobalLayer F) (region : ActiveRegion F) : List (List ExPolygon) :=
  if isModifierNamespaceId region.regionId then []
  else ((input.objects.find? (·.id == region.objectId)).map fun object =>
    object.modifierVolumes.filterMap (modifierFootprint input.sliceMeshEx layer.z)).getD []

/-- A chain picks at most one of the object's values for each declared semantic,
in their order. -/
structure CanonicalChain (objectId : ObjectId) (chain : VariantChain F) : Prop where
  sublist : (chain.map Prod.fst).Sublist input.aggregatedRegionSplit.toList
  values : ∀ entry ∈ chain,
    entry.2 ∈ objectValues input.objects input.aggregatedRegionSplit objectId entry.1

/-- The keys that a plan asks for. -/
def Planned (key : RegionKey F) : Prop :=
  ∃ layer ∈ input.globalLayers, ∃ region ∈ layer.activeRegions,
    key.globalLayerIndex = layer.index ∧ key.objectId = region.objectId ∧
    CanonicalChain input region.objectId key.variantChain ∧
    (key.regionId = region.regionId ∨ ∃ footprint ∈ regionFootprints input layer region,
      childRegionId region key.variantChain footprint = some key.regionId)

/-- The number of chains of an object. -/
def chainCount (objectId : ObjectId) : Nat :=
  (input.aggregatedRegionSplit.toList.map fun semantic => 1 +
    (objectValues input.objects input.aggregatedRegionSplit objectId semantic).dedup.length).prod

/-- The number of keys that a plan asks for. -/
def plannedCount : Nat :=
  (input.globalLayers.map fun layer => (layer.activeRegions.map fun region =>
    chainCount input region.objectId *
      ((regionFootprints input layer region).dedup.length + 1)).sum).sum

variable {input}

theorem length_eq_dedup {α : Type} [DecidableEq α] {l l' : List α} (h : l.Nodup)
    (hmem : ∀ a, a ∈ l ↔ a ∈ l') : l.length = l'.dedup.length := by
  refine ((List.perm_ext_iff_of_nodup h l'.nodup_dedup).mpr fun a => ?_).length_eq
  rw [hmem, List.mem_dedup]

omit [Floats F] in
theorem length_objectChains
    (h : scanPaintData input.objects input.aggregatedRegionSplit = .ok variants)
    (objectId : ObjectId) : (objectChains input variants objectId).length =
      chainCount input objectId := by
  rw [objectChains, enumerateCanonicalChains, length_buildChains, chainCount]
  congr 1
  refine List.map_congr_left fun semantic hsemantic => congrArg (1 + ·) ?_
  obtain ⟨hnodup, hmem⟩ :=
    scanPaintData_spec h objectId semantic (Std.ExtTreeSet.mem_toList.mp hsemantic)
  exact length_eq_dedup hnodup hmem

omit [Floats F] in
theorem mem_objectChains
    (h : scanPaintData input.objects input.aggregatedRegionSplit = .ok variants)
    {objectId : ObjectId} : chain ∈ objectChains input variants objectId ↔
      CanonicalChain input objectId chain := by
  have hvalues : ∀ entry ∈ chain, entry.1 ∈ input.aggregatedRegionSplit.toList →
      (entry.2 ∈ (variants[objectId]?.getD ∅)[entry.1]?.getD [] ↔
        entry.2 ∈ objectValues input.objects input.aggregatedRegionSplit objectId entry.1) :=
    fun entry _ hsemantic => (scanPaintData_spec h objectId entry.1
      (Std.ExtTreeSet.mem_toList.mp hsemantic)).2 entry.2
  rw [objectChains, enumerateCanonicalChains, mem_buildChains]
  constructor
  · rintro ⟨rest, rfl, hsub, hmem⟩
    refine ⟨hsub, fun entry hentry => ?_⟩
    exact (hvalues entry hentry (hsub.subset (List.mem_map_of_mem hentry))).mp (hmem entry hentry)
  · rintro ⟨hsub, hmem⟩
    refine ⟨chain, rfl, hsub, fun entry hentry => ?_⟩
    exact (hvalues entry hentry (hsub.subset (List.mem_map_of_mem hentry))).mpr (hmem entry hentry)

omit [Floats F] [FloatBits F] [DecidableEq F] in
theorem grouped_regionGroups :
    ((regionGroups input layer region).map Prod.fst).Nodup ∧
      ∀ footprint, footprint ∈ (regionGroups input layer region).map Prod.fst ↔
        footprint ∈ regionFootprints input layer region := by
  unfold regionGroups regionFootprints
  split
  case isTrue => exact ⟨List.nodup_nil, fun footprint => Iff.rfl⟩
  case isFalse =>
    cases input.objects.find? (·.id == region.objectId) with
    | none => exact ⟨List.nodup_nil, fun footprint => Iff.rfl⟩
    | some object =>
      have hgrouped := @grouped_modifierFootprintGroups _ input.sliceMeshEx layer.z object
      refine ⟨hgrouped.nodup, fun footprint => ?_⟩
      exact (hgrouped.mem footprint).trans List.mem_filterMap.symm

theorem length_mappingJobs
    (h : scanPaintData input.objects input.aggregatedRegionSplit = .ok variants) :
    (mappingJobs input variants).length = plannedCount input := by
  unfold mappingJobs plannedCount
  rw [List.length_flatMap]
  refine congrArg List.sum (List.map_congr_left fun layer _ => ?_)
  rw [List.length_flatMap]
  refine congrArg List.sum (List.map_congr_left fun region _ => ?_)
  have hjobs : ∀ chain ∈ objectChains input variants region.objectId,
      (chainJobs input layer region chain).length =
        (regionFootprints input layer region).dedup.length + 1 := by
    intro chain _
    obtain ⟨hnodup, hmem⟩ := @grouped_regionGroups _ input layer region
    rw [chainJobs, List.length_append, List.length_map, ← length_eq_dedup hnodup hmem,
      List.length_map]
    rfl
  rw [List.length_flatMap, List.map_congr_left hjobs, List.map_const', List.sum_replicate,
    smul_eq_mul, length_objectChains h]

theorem mem_mappingJobs (h : scanPaintData input.objects input.aggregatedRegionSplit = .ok variants)
    {job : Job F} :
    job ∈ mappingJobs input variants ↔
      ∃ layer ∈ input.globalLayers, ∃ region ∈ layer.activeRegions, ∃ chain,
        CanonicalChain input region.objectId chain ∧
        (job = chainJob input layer region chain ∨
          ∃ group ∈ regionGroups input layer region, job = childJob input layer region chain group) := by
  simp only [mappingJobs, chainJobs, List.mem_flatMap, mem_objectChains h, List.mem_append,
    List.mem_map, List.mem_singleton, eq_comm, or_comm]

omit [FloatBits F] in
theorem chainJob_ok {key : RegionKey F} {config : ResolvedConfig F}
    (h : chainJob input layer region chain = .ok (key, config)) :
    key = entryKey layer region region.regionId chain ∧
      effectiveConfig input layer region chain = .ok config := by
  unfold chainJob at h
  cases hconfig : effectiveConfig input layer region chain with
  | error e =>
    rw [hconfig] at h
    cases h
  | ok effective =>
    rw [hconfig] at h
    cases h
    exact ⟨rfl, rfl⟩

theorem childJob_ok {key : RegionKey F} {config : ResolvedConfig F}
    (h : childJob input layer region chain group = .ok (key, config)) :
    ∃ id, childRegionId region chain group.1 = some id ∧ key = entryKey layer region id chain ∧
      childConfig input layer region group.2 chain (lastChainTool chain) = .ok config := by
  cases hid : childRegionId region chain group.1 with
  | none =>
    rw [childJob, hid] at h
    cases h
  | some id =>
    rw [childJob_eq hid] at h
    cases hconfig : childConfig input layer region group.2 chain (lastChainTool chain) with
    | error e =>
      rw [hconfig] at h
      cases h
    | ok config' =>
      rw [hconfig] at h
      cases h
      exact ⟨id, rfl, rfl, rfl⟩

/-- The entry of a base or painted region is in the map. -/
theorem exists_chain_entry (h : executeRegionMapping input = .ok map)
    (hlayer : layer ∈ input.globalLayers) (hregion : region ∈ layer.activeRegions)
    (hchain : CanonicalChain input region.objectId chain) :
    ∃ entry ∈ map.entries, entry.1 = entryKey layer region region.regionId chain ∧
      ∃ config, effectiveConfig input layer region chain = .ok config ∧
        Pooled map.configs entry.2.config config := by
  obtain ⟨variants, hvariants, -, hmade⟩ := executeRegionMapping_ok h
  have hjob := (mem_mappingJobs hvariants).mpr
    ⟨layer, hlayer, region, hregion, chain, hchain, .inl rfl⟩
  obtain ⟨entry, hentry, config, hok, hpooled⟩ := hmade.exists_of_mem_left hjob
  obtain ⟨hkey, hconfig⟩ := chainJob_ok hok
  exact ⟨entry, hentry, hkey, config, hconfig, hpooled⟩

theorem exists_child_entry (h : executeRegionMapping input = .ok map)
    (hlayer : layer ∈ input.globalLayers) (hregion : region ∈ layer.activeRegions)
    (hchain : CanonicalChain input region.objectId chain)
    (hgroup : group ∈ regionGroups input layer region) :
    ∃ entry ∈ map.entries, ∃ id, childRegionId region chain group.1 = some id ∧
      entry.1 = entryKey layer region id chain ∧
      ∃ config, childConfig input layer region group.2 chain (lastChainTool chain) = .ok config ∧
        Pooled map.configs entry.2.config config := by
  obtain ⟨variants, hvariants, -, hmade⟩ := executeRegionMapping_ok h
  have hjob := (mem_mappingJobs hvariants).mpr
    ⟨layer, hlayer, region, hregion, chain, hchain, .inr ⟨group, hgroup, rfl⟩⟩
  obtain ⟨entry, hentry, config, hok, hpooled⟩ := hmade.exists_of_mem_left hjob
  obtain ⟨id, hid, hkey, hconfig⟩ := childJob_ok hok
  exact ⟨entry, hentry, id, hid, hkey, config, hconfig, hpooled⟩

theorem mem_keys_iff_planned (h : executeRegionMapping input = .ok map) (key : RegionKey F) :
    key ∈ map.entries.map Prod.fst ↔ Planned input key := by
  obtain ⟨variants, hvariants, -, hmade⟩ := executeRegionMapping_ok h
  constructor
  · intro hkey
    obtain ⟨entry, hentry, rfl⟩ := List.mem_map.mp hkey
    obtain ⟨job, hjob, config, rfl, -⟩ := hmade.exists_of_mem_right hentry
    obtain ⟨layer, hlayer, region, hregion, chain, hchain, hjob⟩ := (mem_mappingJobs hvariants).mp hjob
    refine ⟨layer, hlayer, region, hregion, ?_⟩
    rcases hjob with hjob | ⟨group, hgroup, hjob⟩
    · obtain ⟨heq, -⟩ := chainJob_ok hjob.symm
      rw [heq]
      exact ⟨rfl, rfl, hchain, .inl rfl⟩
    · obtain ⟨id, hid, heq, -⟩ := childJob_ok hjob.symm
      rw [heq]
      refine ⟨rfl, rfl, hchain, .inr ⟨group.1, ?_, hid⟩⟩
      exact (grouped_regionGroups.2 group.1).mp (List.mem_map_of_mem hgroup)
  · obtain ⟨layerIndex, objectId, regionId, chain⟩ := key
    rintro ⟨layer, hlayer, region, hregion, rfl, rfl, hchain, rfl | ⟨footprint, hfootprint, hid⟩⟩
    · obtain ⟨entry, hentry, heq, -⟩ := exists_chain_entry h hlayer hregion hchain
      exact List.mem_map.mpr ⟨entry, hentry, heq⟩
    · obtain ⟨group, hgroup, rfl⟩ := List.mem_map.mp ((grouped_regionGroups.2 footprint).mpr hfootprint)
      obtain ⟨entry, hentry, id, hid', heq, -⟩ := exists_child_entry h hlayer hregion hchain hgroup
      rw [hid] at hid'
      cases hid'
      exact List.mem_map.mpr ⟨entry, hentry, heq⟩

variable (input) in
/-- What a successful mapping promises of the map. -/
structure HasPlannedKeys (map : RegionMapIR F) : Prop where
  nodup : (map.entries.map Prod.fst).Nodup
  mem_iff : ∀ key, key ∈ map.entries.map Prod.fst ↔ Planned input key
  length_eq : map.entries.length = plannedCount input
  le_cap : map.entries.length ≤ input.cap
  inRange : ∀ entry ∈ map.entries, entry.2.config < map.configs.length
  distinct : map.configs.Pairwise fun a b => sameConfig a b = false

omit [Floats F] [FloatBits F] in
/-- Every region has an entry of its own. -/
theorem length_regions_le : (input.globalLayers.flatMap (·.activeRegions)).length ≤
    plannedCount input := by
  unfold plannedCount
  rw [List.length_flatMap]
  refine List.sum_le_sum fun layer _ => ?_
  have hone : ∀ region ∈ layer.activeRegions, 1 ≤ chainCount input region.objectId *
      ((regionFootprints input layer region).dedup.length + 1) := by
    intro region _
    refine Nat.mul_pos (List.prod_pos ?_) (Nat.succ_pos _)
    intro factor hfactor
    obtain ⟨semantic, -, rfl⟩ := List.mem_map.mp hfactor
    omega
  have hsum := List.sum_le_sum hone
  simpa using hsum

/-- Without too many keys the cap is not reached. -/
theorem lt_plannedCount_of_capped {error : RegionMappingError F} (hcap : IsCapError error)
    (h : executeRegionMapping input = .error error) : input.cap < plannedCount input := by
  unfold executeRegionMapping at h
  cases hprecheck : precheckCap input with
  | error e =>
    unfold precheckCap at hprecheck
    dsimp only at hprecheck
    split at hprecheck
    case isTrue hlt => exact hlt.trans_le length_regions_le
    case isFalse => cases hprecheck
  | ok u =>
    rw [hprecheck] at h
    cases hvariants : scanPaintData input.objects input.aggregatedRegionSplit with
    | error e =>
      rw [hvariants] at h
      cases h
      exact absurd hcap (scanPaintData_failsWith _ hvariants).not_cap
    | ok variants =>
      rw [hvariants] at h
      have := (inserts_mapping hvariants).capped {} error sound_empty hcap h
      rw [length_mappingJobs hvariants] at this
      simpa using this

/-- The map has exactly the planned keys, and the cap is the obstacle only when
there are more of them. -/
theorem region_map_has_planned_keys (input : RegionMappingInput F) :
    (∀ map, executeRegionMapping input = .ok map → HasPlannedKeys input map) ∧
      ∀ error, IsCapError error → executeRegionMapping input = .error error →
        input.cap < plannedCount input := by
  refine ⟨fun map h => ?_, fun error hcap h => lt_plannedCount_of_capped hcap h⟩
  obtain ⟨variants, hvariants, hsound, hmade⟩ := executeRegionMapping_ok h
  exact {
    nodup := hsound.nodup
    mem_iff := mem_keys_iff_planned h
    length_eq := by rw [← hmade.length_eq, length_mappingJobs hvariants]
    le_cap := hsound.le_cap
    inRange := hsound.inRange
    distinct := hsound.distinct }

end Jobs

/-! ### A painted object with a modifier -/

def tileFootprint : List ExPolygon :=
  [{ contour := [⟨0, 0⟩, ⟨8, 0⟩, ⟨8, 8⟩] }]

def tileModifier : ModifierVolume ℚ where
  id := "dense"
  mesh := { vertices := [⟨0, 0, 0⟩], indices := [0, 0, 0] }
  configDelta := .ofList [("sparse_infill_density", .float 80)] compare

def tile : ObjectMesh ℚ where
  id := "tile"
  modifierVolumes := [tileModifier]
  paintData := some [{ semantic := .Material, facetValues := [none, some (.ToolIndex 1)] }]

def tileRegion : ActiveRegion ℚ where
  objectId := "tile"
  regionId := 7
  resolvedConfig := ResolvedConfig.default

def tileLayer : GlobalLayer ℚ where
  index := 3
  z := 1 / 5
  activeRegions := [tileRegion]

def tileInput : RegionMappingInput ℚ where
  globalLayers := [tileLayer]
  aggregatedRegionSplit := .ofList ["material"] compare
  objects := [tile]
  cap := 8
  sliceMeshEx _ _ := [tileFootprint]

/-- The region and its painted part, each with a modifier child. -/
theorem region_map_has_planned_keys_tile :
    (executeRegionMapping tileInput).toOption.isSome = true ∧
      ∀ map, executeRegionMapping tileInput = .ok map → map.entries.length = 4 := by
  refine ⟨by decide +kernel, fun map h => ?_⟩
  have hcount : plannedCount tileInput = 4 := by decide +kernel
  rw [((region_map_has_planned_keys tileInput).1 map h).length_eq, hcount]

end PinchNPrint.Region
