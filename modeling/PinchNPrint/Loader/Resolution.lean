/-
Resolving an object ends, and not in a cycle.

A level of the recursion visits an object that is in the table and was not visited, so there
are at most as many levels as objects, and more fuel than that changes nothing. The objects
visited on the way to one that is resolved do not contain it, so no object of a cycle is.
-/

import PinchNPrint.Loader.Flattening

namespace PinchNPrint.Loader

open Region (IndexedTriangleSet Point3)
open Relation (ReflTransGen TransGen)

variable {F : Type} [Field F] [DecidableEq F] {objects : ObjectTable F} {sidecar : ParsedSidecar}

/-! ### Fuel -/

omit [DecidableEq F] in
/-- How many objects are not visited. -/
def unvisited (objects : ObjectTable F) (visited : List Nat) : Nat :=
  ((objects.map Prod.fst).toFinset \ visited.toFinset).card

omit [DecidableEq F] in
theorem unvisited_nil_le (objects : ObjectTable F) : unvisited objects [] ≤ objects.length := by
  rw [unvisited, List.toFinset_nil, Finset.sdiff_empty]
  exact (List.toFinset_card_le _).trans_eq (List.length_map _)

variable {objectId fuel : Nat} {visited : List Nat} {incoming : Transform F} {resolved : Resolved F}

omit [DecidableEq F] in
/-- An object of the table that is visited is one less. -/
theorem unvisited_append_lt {obj : Parsed3mfObject F} (hnew : objectId ∉ visited)
    (hobj : objects.lookup objectId = some obj) :
    unvisited objects (visited ++ [objectId]) < unvisited objects visited := by
  have hkey : objectId ∈ objects.map Prod.fst := by
    obtain ⟨before, after, rfl, -⟩ := List.lookup_eq_some_iff.mp hobj
    simp
  apply Finset.card_lt_card
  rw [Finset.ssubset_iff_of_subset]
  · refine ⟨objectId, ?_, ?_⟩
    · simpa using ⟨List.mem_map.mp hkey |>.elim fun entry h => ⟨entry.2, h.2 ▸ h.1⟩, hnew⟩
    · simp
  · intro other hother
    simp only [List.toFinset_append, Finset.mem_sdiff, Finset.mem_union, not_or] at hother ⊢
    exact ⟨hother.1, hother.2.1⟩

/-- Fuel for the objects that are not visited is enough: with more the result is the same. -/
theorem resolveObject_fuel {fuel' : Nat} (h : unvisited objects visited < fuel)
    (h' : unvisited objects visited < fuel') :
    resolveObject objects sidecar fuel objectId incoming visited =
      resolveObject objects sidecar fuel' objectId incoming visited := by
  induction fuel generalizing fuel' objectId incoming visited with
  | zero => omega
  | succ fuel ih =>
    cases fuel' with
    | zero => omega
    | succ fuel' =>
      rw [resolveObject, resolveObject]
      by_cases hvisited : objectId ∈ visited
      · rw [if_pos hvisited, if_pos hvisited]
      · rw [if_neg hvisited, if_neg hvisited]
        cases hobj : objects.lookup objectId with
        | none => rfl
        | some obj =>
          have hless := unvisited_append_lt hvisited hobj
          have hstep : ∀ (comp : ParsedComponent F) (t : Transform F),
              resolveObject objects sidecar fuel comp.objectid t (visited ++ [objectId]) =
                resolveObject objects sidecar fuel' comp.objectid t (visited ++ [objectId]) :=
            fun _ _ => ih (by omega) (by omega)
          simp only [hstep]

/-- And it is not used up. -/
theorem resolveObject_ne_outOfFuel (h : unvisited objects visited < fuel) :
    Except.FailsWith (· ≠ ResolveFailure.outOfFuel)
      (resolveObject objects sidecar fuel objectId incoming visited) := by
  induction fuel generalizing objectId incoming visited with
  | zero => omega
  | succ fuel ih =>
    have herror : ∀ {α : Type} (e : ModelLoadError),
        Except.FailsWith (· ≠ ResolveFailure.outOfFuel)
          (.error (.error e) : Except ResolveFailure α) := by
      intro α e failure hfailure
      cases hfailure
      exact fun h => by cases h
    rw [resolveObject]
    split_ifs with hvisited
    · exact herror _
    · cases hobj : objects.lookup objectId with
      | none => exact herror _
      | some obj =>
        have hless := unvisited_append_lt hvisited hobj
        cases hmesh : obj.mesh with
        | some mesh =>
          simp only [hmesh]
          exact Except.FailsWith.pure _
        | none =>
          simp only [hmesh]
          split_ifs with hnone
          · exact herror _
          · refine Except.FailsWith.bind (Except.FailsWith.foldlM ?_ _) ?_
            · intro comp _ merged
              exact Except.FailsWith.bind (ih (by omega)) fun child => Except.FailsWith.pure _
            · intro merged
              cases merged.finish with
              | error e => exact herror e
              | ok resolved => exact Except.FailsWith.pure resolved

/-! ### Cycles -/

/-- An object without a mesh has another as a component. -/
def Refers (objects : ObjectTable F) (objectId partId : Nat) : Prop :=
  ∃ obj, objects.lookup objectId = some obj ∧ obj.mesh = none ∧
    partId ∈ obj.components.map ParsedComponent.objectid

theorem resolveObject_refers {partId : Nat}
    (h : resolveObject objects sidecar fuel objectId incoming visited = .ok resolved)
    (hrefers : Refers objects objectId partId) :
    objectId ∉ visited ∧ ∃ fuel' incoming' resolved',
      resolveObject objects sidecar fuel' partId incoming' (visited ++ [objectId]) =
        .ok resolved' := by
  obtain ⟨obj, hobj, hmesh, hpart⟩ := hrefers
  obtain ⟨comp, hcomp, rfl⟩ := List.mem_map.mp hpart
  cases fuel with
  | zero => cases h
  | succ fuel =>
    rw [resolveObject] at h
    split_ifs at h with hvisited
    rw [hobj] at h
    simp only [hmesh] at h
    split_ifs at h with hnone
    obtain ⟨merged, hmerged, -⟩ := Except.of_bind_eq_ok h
    obtain ⟨before, after, hstep⟩ := Except.step_of_foldlM_eq_ok hmerged hcomp
    obtain ⟨child, hchild, -⟩ := Except.of_bind_eq_ok hstep
    exact ⟨hvisited, fuel, _, child, hchild⟩

theorem resolveObject_reaches {partId : Nat}
    (h : resolveObject objects sidecar fuel objectId incoming visited = .ok resolved)
    (hreaches : ReflTransGen (Refers objects) objectId partId) :
    ∃ visited' fuel' incoming' resolved', visited ⊆ visited' ∧
      resolveObject objects sidecar fuel' partId incoming' visited' = .ok resolved' := by
  induction hreaches with
  | refl => exact ⟨visited, fuel, incoming, resolved, List.Subset.refl _, h⟩
  | tail _ hlast ih =>
    obtain ⟨visited', fuel', incoming', resolved', hsub, hprev⟩ := ih
    obtain ⟨-, fuel'', incoming'', resolved'', hnext⟩ := resolveObject_refers hprev hlast
    exact ⟨_, fuel'', incoming'', resolved'', List.subset_append_of_subset_left _ hsub, hnext⟩

theorem not_resolved_of_cycle (hcycle : TransGen (Refers objects) objectId objectId) :
    resolveObject objects sidecar fuel objectId incoming visited ≠ .ok resolved := by
  intro h
  obtain ⟨next, hfirst, hrest⟩ := TransGen.head'_iff.mp hcycle
  obtain ⟨-, fuel', incoming', resolved', hnext⟩ := resolveObject_refers h hfirst
  obtain ⟨visited', fuel'', incoming'', resolved'', hsub, hagain⟩ :=
    resolveObject_reaches hnext hrest
  have hmem : objectId ∈ visited' := hsub (List.mem_append_right _ List.mem_cons_self)
  exact (resolveObject_refers hagain hfirst).1 hmem

/-! ### Resolving -/

/-- What resolving an object does. -/
structure Resolves (objects : ObjectTable F) (sidecar : ParsedSidecar) (objectId : Nat)
    (incoming : Transform F) : Prop where
  /-- The recursion ends, and more fuel does not change how. -/
  terminates : resolve objects sidecar objectId incoming ≠ .error .outOfFuel ∧
    ∀ fuel, objects.length < fuel →
      resolveObject objects sidecar fuel objectId incoming [] =
        resolve objects sidecar objectId incoming
  /-- A result is flattened from the leaves of the object. -/
  flattens : ∀ resolved, resolve objects sidecar objectId incoming = .ok resolved →
    ∃! leaves, Leaves objects sidecar [{ id := objectId, place := incoming.rowMap }] leaves ∧
      Flattened (resolved.mesh, resolved.paint) leaves
  /-- A cycle of objects without meshes is an error. -/
  rejects_cycles : ∀ partId, ReflTransGen (Refers objects) objectId partId →
    TransGen (Refers objects) partId partId →
      ∃ e, resolve objects sidecar objectId incoming = .error (.error e)

/-- Every object table is resolved so. -/
theorem resolve_spec (objects : ObjectTable F) (sidecar : ParsedSidecar) (objectId : Nat)
    (incoming : Transform F) : Resolves objects sidecar objectId incoming := by
  have hfuel : unvisited objects [] < objects.length + 1 :=
    Nat.lt_succ_of_le (unvisited_nil_le objects)
  have hends : resolve objects sidecar objectId incoming ≠ .error .outOfFuel := fun h =>
    resolveObject_ne_outOfFuel hfuel _ h rfl
  refine ⟨⟨hends, fun fuel hmore => ?_⟩, fun resolved h => ?_, fun partId hreaches hcycle => ?_⟩
  · exact resolveObject_fuel ((unvisited_nil_le objects).trans_lt hmore) hfuel
  · obtain ⟨leaves, hleaves, hflat⟩ := resolveObject_flattened h
    exact ⟨leaves, ⟨hleaves, hflat⟩, fun leaves' h' => h'.1.unique hleaves⟩
  · cases hresult : resolve objects sidecar objectId incoming with
    | ok resolved =>
      obtain ⟨visited', fuel', incoming', resolved', -, hpart⟩ :=
        resolveObject_reaches hresult hreaches
      exact absurd hpart (not_resolved_of_cycle hcycle)
    | error failure =>
      cases failure with
      | error e => exact ⟨e, rfl⟩
      | outOfFuel => exact absurd hresult hends

/-! ### Two painted parts -/

/-- A facet that is painted in a channel. -/
def paintedFacet (channel : Channel) : List (MeshEvent ℚ) :=
  [.vertex { x := 1, y := 0, z := 0 }, .vertex { x := 0, y := 1, z := 0 },
    .vertex { x := 0, y := 0, z := 1 },
    .triangle { v1 := some 0, v2 := some 1, v3 := some 2,
                paint := fun c => if c = channel then some { hex := "4" } else none }]

/-- An object whose parts are two painted facets, the second one moved and enlarged. -/
def paintedTable : ObjectTable ℚ :=
  [(1, { mesh := (parseMesh .main (paintedFacet .supports)).toOption.join }),
    (2, { mesh := (parseMesh .sub (paintedFacet .seam)).toOption.join }),
    (3, { components := [{ objectid := 1 },
            { objectid := 2,
              transform := (parse3mfTransform [1, 0, 0, 0, 2, 0, 0, 0, 1, 5, 0, 0]).toOption }],
          transform := (parse3mfTransform [0, 1, 0, 1, 0, 0, 0, 0, 1, 0, 0, 7]).toOption })]

/-- The parts are merged in order; either has a semantic that the other lacks. -/
theorem resolve_spec_paintedTable :
    ∃ resolved, resolve paintedTable (fun _ _ => none) 3 identity3mfTransform = .ok resolved ∧
      (∃ leaves, Flattened (resolved.mesh, resolved.paint) leaves) ∧
      resolved.mesh.vertices = [⟨0, 1, 7⟩, ⟨1, 0, 7⟩, ⟨0, 0, 8⟩, ⟨0, 6, 7⟩, ⟨2, 5, 7⟩, ⟨0, 5, 8⟩] ∧
      resolved.mesh.indices = [0, 1, 2, 3, 4, 5] ∧
      (layersOf resolved.paint).map (fun layer => (layer.semantic, layer.facetValues)) =
        [(.SupportEnforcer, [some (.Flag true), none]),
          (.Custom "seam_enforcer", [none, some (.Flag true)])] := by
  have hsome : (resolve paintedTable (fun _ _ => none) 3 identity3mfTransform).toOption.any
      (fun resolved =>
        resolved.mesh = ⟨[⟨0, 1, 7⟩, ⟨1, 0, 7⟩, ⟨0, 0, 8⟩, ⟨0, 6, 7⟩, ⟨2, 5, 7⟩, ⟨0, 5, 8⟩],
          [0, 1, 2, 3, 4, 5]⟩ ∧
        (layersOf resolved.paint).map (fun layer => (layer.semantic, layer.facetValues)) =
          [(.SupportEnforcer, [some (.Flag true), none]),
            (.Custom "seam_enforcer", [none, some (.Flag true)])]) = true := by
    decide +kernel
  obtain ⟨resolved, hresolved, hresult⟩ := (Option.any_eq_true _ _).mp hsome
  obtain ⟨hmesh, hlayers⟩ := of_decide_eq_true hresult
  have hresolve := Except.of_toOption_eq_some hresolved
  obtain ⟨leaves, ⟨-, hflat⟩, -⟩ :=
    (resolve_spec paintedTable (fun _ _ => none) 3 identity3mfTransform).flattens resolved hresolve
  exact ⟨resolved, hresolve, ⟨leaves, hflat⟩, by rw [hmesh], by rw [hmesh], hlayers⟩

end PinchNPrint.Loader
