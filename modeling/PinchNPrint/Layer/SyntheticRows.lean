/-
Synthetic layers in finalization (`slicer-sdk`: `traits.rs`; `slicer-runtime`:
`layer_finalization.rs`).

A synthetic layer takes its index from its position in the list, while the layers
behind it keep theirs. `synthetic_rows_admissible_iff` says for which insertions
the merge succeeds, the indices still pass the check of the host and every original
layer is unchanged and still found under its index.
-/

import PinchNPrint.Layer.MergeSteps

namespace PinchNPrint.Layer

variable {F : Type}

/-! ### Insertions -/

/-- The operations of a builder that inserts synthetic layers after positions. -/
def synthOps (inserts : List (Nat × SyntheticLayerData F)) : List (MergeOp F) :=
  inserts.map fun entry => .InsertSynthLayer entry.1 entry.2

/-- The rows after the insertions. -/
def insertRows : List (LayerCollectionIR F) → List (Nat × SyntheticLayerData F) →
    List (LayerCollectionIR F)
  | rows, [] => rows
  | rows, (idx, data) :: rest =>
    insertRows (rows.insertIdx (idx + 1) (synthLayer rows idx data)) rest

/-- Every insertion comes after one of the `n` rows there are by then. -/
def InRange : Nat → List (Nat × SyntheticLayerData F) → Prop
  | _, [] => True
  | n, (idx, _) :: rest => idx < n ∧ InRange (n + 1) rest

/-- Every insertion comes behind the `n` original layers, and the row it moves, if
any, has the index that the synthetic layer takes. -/
def InsertsFit (n : Nat) : List (LayerCollectionIR F) → List (Nat × SyntheticLayerData F) → Prop
  | _, [] => True
  | rows, (idx, data) :: rest =>
    n ≤ idx + 1 ∧
    (∀ row, rows[idx + 1]? = some row → row.globalLayerIndex = idx + 1) ∧
    InsertsFit n (rows.insertIdx (idx + 1) (synthLayer rows idx data)) rest

/-- The remap of the order locks takes the locks of all rows, and the original
layers hold none that it renumbers. -/
structure LocksFit (layers : List (LayerCollectionIR F))
    (inserts : List (Nat × SyntheticLayerData F)) : Prop where
  originals : ∀ layer ∈ layers, NoLocalTag layer.orderedEntities
  pass : LocksPass (nextTag ((insertRows layers inserts).flatMap rowLocks))
    ((insertRows layers inserts).flatMap rowLocks)

/-- The check of `execute_layer_finalization_with_instrumentation` after each
module. -/
def validateMonotonic : List (LayerCollectionIR F) → Except String Unit
  | a :: b :: rest =>
    if b.globalLayerIndex < a.globalLayerIndex then
      .error s!"layer indices must be monotonic, found {a.globalLayerIndex} followed by {b.globalLayerIndex}"
    else validateMonotonic (b :: rest)
  | _ => .ok ()

/-- The ids of all entities. -/
def rowEntityIds (rows : List (LayerCollectionIR F)) : List Nat :=
  (rows.flatMap (·.orderedEntities)).map (·.entityId)

/-- What insertions keep: the host takes the indices, every original layer is
found under its index and unchanged, and the ids of the inserted entities are new. -/
structure Admissible (layers : List (LayerCollectionIR F)) (ops : List (MergeOp F))
    (rows : List (LayerCollectionIR F)) : Prop where
  monotonic : validateMonotonic rows = .ok ()
  originals : ∀ (p : Nat) (layer : LayerCollectionIR F), layers[p]? = some layer →
    findLayer rows layer.globalLayerIndex = some (landsAt ops p, layer)
  ids : ∃ fresh, (rowEntityIds rows).Perm (rowEntityIds layers ++ fresh) ∧ fresh.Nodup ∧
    ∀ id ∈ fresh, id ∉ rowEntityIds layers

/-! ### Rows and positions -/

section Positions

variable {rows : List (LayerCollectionIR F)} {inserts : List (Nat × SyntheticLayerData F)}

theorem landsAt_synthOps_cons (idx : Nat) (data : SyntheticLayerData F) (p : Nat) :
    landsAt (synthOps ((idx, data) :: inserts)) p =
      landsAt (synthOps inserts) (placeAfter p (.InsertSynthLayer idx data)) := rfl

/-- Insertions keep the order of the rows. -/
theorem landsAt_lt {p q : Nat} (h : p < q) :
    landsAt (synthOps inserts) p < landsAt (synthOps inserts) q := by
  induction inserts generalizing p q with
  | nil => exact h
  | cons entry rest ih =>
    obtain ⟨idx, data⟩ := entry
    rw [landsAt_synthOps_cons, landsAt_synthOps_cons]
    apply ih
    simp only [placeAfter]
    split <;> split <;> omega

theorem getElem?_insertRows (rows : List (LayerCollectionIR F))
    (inserts : List (Nat × SyntheticLayerData F)) (p : Nat) :
    (insertRows rows inserts)[landsAt (synthOps inserts) p]? = rows[p]? := by
  induction inserts generalizing rows p with
  | nil => rfl
  | cons entry rest ih =>
    obtain ⟨idx, data⟩ := entry
    rw [landsAt_synthOps_cons, insertRows, ih, getElem?_insertIdx_placeAfter]

theorem foldlM_synthOps [DecidableEq F] (hrange : InRange rows.length inserts) :
    (synthOps inserts).foldlM applyMergeOp rows = .ok (insertRows rows inserts) := by
  induction inserts generalizing rows with
  | nil => rfl
  | cons entry rest ih =>
    obtain ⟨idx, data⟩ := entry
    obtain ⟨hidx, hrest⟩ := hrange
    have hinsert : applyMergeOp rows (.InsertSynthLayer idx data) =
        .ok (rows.insertIdx (idx + 1) (synthLayer rows idx data)) := by
      simp only [applyMergeOp, insertSynthLayer, if_neg (Nat.not_le.mpr hidx)]
    rw [synthOps, List.map_cons, List.foldlM_cons, hinsert]
    refine ih ?_
    rwa [List.length_insertIdx_of_le_length (Nat.succ_le_of_lt hidx)]

/-- The indices are in order. -/
def Ordered (rows : List (LayerCollectionIR F)) : Prop :=
  ∀ (p q : Nat) (a b : LayerCollectionIR F), p < q → rows[p]? = some a → rows[q]? = some b →
    a.globalLayerIndex ≤ b.globalLayerIndex

theorem validateMonotonic_ok_iff : validateMonotonic rows = .ok () ↔ Ordered rows := by
  have hchain : validateMonotonic rows = .ok () ↔
      rows.IsChain fun a b => a.globalLayerIndex ≤ b.globalLayerIndex := by
    fun_induction validateMonotonic rows with
    | case1 a b rest hlt => simp [List.isChain_cons_cons, Nat.not_le.mpr hlt]
    | case2 a b rest hle ih =>
      rw [ih, List.isChain_cons_cons]
      exact (and_iff_right (Nat.le_of_not_lt hle)).symm
    | case3 rows hshort =>
      match rows, hshort with
      | [], _ => simp
      | [a], _ => simp
      | a :: b :: rest, hshort => exact absurd rfl (hshort a b rest)
  have : IsTrans (LayerCollectionIR F) fun a b => a.globalLayerIndex ≤ b.globalLayerIndex :=
    ⟨fun _ _ _ => Nat.le_trans⟩
  rw [hchain, List.isChain_iff_pairwise, List.pairwise_iff_getElem]
  constructor
  · intro h p q a b hpq ha hb
    obtain ⟨hp, rfl⟩ := List.getElem?_eq_some_iff.mp ha
    obtain ⟨hq, rfl⟩ := List.getElem?_eq_some_iff.mp hb
    exact h p q hp hq hpq
  · intro h p q hp hq hpq
    exact h p q _ _ hpq (List.getElem?_eq_getElem hp) (List.getElem?_eq_getElem hq)

/-- No row has an index above its position. -/
def IndicesBelow (rows : List (LayerCollectionIR F)) : Prop :=
  ∀ (p : Nat) (row : LayerCollectionIR F), rows[p]? = some row → row.globalLayerIndex ≤ p

theorem IndicesBelow.insertIdx (h : IndicesBelow rows) (idx : Nat) (data : SyntheticLayerData F) :
    IndicesBelow (rows.insertIdx (idx + 1) (synthLayer rows idx data)) := by
  intro p row hrow
  rcases getElem?_insertIdx_cases hrow with ⟨-, hold⟩ | ⟨rfl, rfl⟩ | ⟨q, -, rfl, hold⟩
  · exact h p row hold
  · exact le_rfl
  · exact Nat.le_succ_of_le (h q row hold)

end Positions

/-! ### The ids of inserted entities -/

section Ids

variable {rows : List (LayerCollectionIR F)}

theorem mem_rowEntityIds_le {id : Nat} (h : id ∈ rowEntityIds rows) :
    id ≤ (rowEntityIds rows).max?.getD 0 := by
  cases hmax : (rowEntityIds rows).max? with
  | none =>
    rw [List.max?_eq_none_iff.mp hmax] at h
    cases h
  | some max => exact (List.max?_eq_some_iff.mp hmax).2 id h

theorem synthLayer_ids (rows : List (LayerCollectionIR F)) (idx : Nat) (data : SyntheticLayerData F) :
    (synthLayer rows idx data).orderedEntities.map (·.entityId) =
      List.range' ((rowEntityIds rows).max?.getD 0 + 1) data.paths.length := by
  refine List.ext_getElem? fun i => ?_
  simp only [synthLayer, rowEntityIds, List.getElem?_map, List.getElem?_mapIdx]
  rcases Nat.lt_or_ge i data.paths.length with hi | hi
  · rw [List.getElem?_eq_getElem hi, List.getElem?_range' hi]
    simp
  · rw [List.getElem?_eq_none hi, List.getElem?_eq_none (by simpa using hi)]
    rfl

theorem rowEntityIds_insertIdx {position : Nat} (h : position ≤ rows.length)
    (row : LayerCollectionIR F) : (rowEntityIds (rows.insertIdx position row)).Perm
      (row.orderedEntities.map (·.entityId) ++ rowEntityIds rows) := by
  have hperm := (List.perm_insertIdx row rows h).flatMap_right (·.orderedEntities)
  rw [List.flatMap_cons] at hperm
  have hids := hperm.map (·.entityId)
  rwa [List.map_append] at hids

/-- The ids of all inserted entities are new and distinct. -/
theorem exists_fresh_ids {inserts : List (Nat × SyntheticLayerData F)}
    (hrange : InRange rows.length inserts) :
    ∃ fresh, (rowEntityIds (insertRows rows inserts)).Perm (rowEntityIds rows ++ fresh) ∧ fresh.Nodup ∧
      ∀ id ∈ fresh, id ∉ rowEntityIds rows := by
  induction inserts generalizing rows with
  | nil => exact ⟨[], by simp [insertRows], List.nodup_nil, fun _ h => nomatch h⟩
  | cons entry rest ih =>
    obtain ⟨idx, data⟩ := entry
    obtain ⟨hidx, hrest⟩ := hrange
    have hlength : (rows.insertIdx (idx + 1) (synthLayer rows idx data)).length = rows.length + 1 :=
      List.length_insertIdx_of_le_length (Nat.succ_le_of_lt hidx) _
    obtain ⟨fresh, hperm, hnodup, hnew⟩ := ih (hlength ▸ hrest)
    have hinsert := rowEntityIds_insertIdx (Nat.succ_le_of_lt hidx) (synthLayer rows idx data)
    have hids := synthLayer_ids rows idx data
    generalize (synthLayer rows idx data).orderedEntities.map (·.entityId) = added at hinsert hids
    have hadded : ∀ id ∈ added, id ∉ rowEntityIds rows := by
      intro id hid hmem
      rw [hids, List.mem_range'_1] at hid
      have := mem_rowEntityIds_le hmem
      omega
    refine ⟨added ++ fresh, ?_, ?_, ?_⟩
    · refine hperm.trans ((hinsert.append_right fresh).trans ?_)
      rw [← List.append_assoc]
      exact List.perm_append_comm.append_right fresh
    · refine List.nodup_append.mpr ⟨hids ▸ List.nodup_range', hnodup, ?_⟩
      rintro a ha b hb rfl
      exact hnew a hb (hinsert.mem_iff.mpr (List.mem_append_left _ ha))
    · intro id hid
      rcases List.mem_append.mp hid with hid | hid
      · exact hadded id hid
      · exact fun hmem => hnew id hid (hinsert.mem_iff.mpr (List.mem_append_right _ hmem))

end Ids

/-! ### Insertions that fit -/

section Fit

variable {layers rows : List (LayerCollectionIR F)} {inserts : List (Nat × SyntheticLayerData F)}

/-- The original layers lead the rows, and the indices are in order. -/
structure Settled (layers rows : List (LayerCollectionIR F)) : Prop where
  leads : ∀ p, p < layers.length → rows[p]? = layers[p]?
  below : IndicesBelow rows
  ordered : Ordered rows

theorem Settled.insertIdx (h : Settled layers rows) {idx : Nat} (hidx : layers.length ≤ idx + 1)
    (hmoved : ∀ row, rows[idx + 1]? = some row → row.globalLayerIndex = idx + 1)
    (data : SyntheticLayerData F) :
    Settled layers (rows.insertIdx (idx + 1) (synthLayer rows idx data)) where
  leads p hp := by
    rw [List.getElem?_insertIdx_of_lt (by omega)]
    exact h.leads p hp
  below := h.below.insertIdx idx data
  ordered := by
    -- the rows behind the position have at least the index of the first of them
    have hbehind : ∀ (q : Nat) (row : LayerCollectionIR F), idx + 1 ≤ q → rows[q]? = some row →
        idx + 1 ≤ row.globalLayerIndex := by
      intro q row hq hrow
      have hlt : idx + 1 < rows.length := by
        have := (List.getElem?_eq_some_iff.mp hrow).1
        omega
      have hfirst := List.getElem?_eq_getElem hlt
      rcases Nat.eq_or_lt_of_le hq with rfl | hq
      · exact le_of_eq (hmoved row hrow).symm
      · have := h.ordered (idx + 1) q _ row hq hfirst hrow
        rwa [hmoved _ hfirst] at this
    intro p q a b hpq ha hb
    rcases getElem?_insertIdx_cases ha with ⟨hp, ha'⟩ | ⟨rfl, rfl⟩ | ⟨p, hp, rfl, ha'⟩
    · rcases getElem?_insertIdx_cases hb with ⟨-, hb'⟩ | ⟨-, rfl⟩ | ⟨q, hq, rfl, hb'⟩
      · exact h.ordered p q a b hpq ha' hb'
      · exact Nat.le_trans (h.below p a ha') (Nat.le_of_lt hp)
      · exact h.ordered p q a b (by omega) ha' hb'
    · rcases getElem?_insertIdx_cases hb with ⟨hq, -⟩ | ⟨rfl, -⟩ | ⟨q, hq, rfl, hb'⟩
      · omega
      · omega
      · exact hbehind q b hq hb'
    · rcases getElem?_insertIdx_cases hb with ⟨hq, -⟩ | ⟨rfl, -⟩ | ⟨q, hq, rfl, hb'⟩
      · omega
      · omega
      · exact h.ordered p q a b (by omega) ha' hb'

/-- Insertions that fit keep the original layers in front. -/
theorem Settled.insertRows (h : Settled layers rows) (hfit : InsertsFit layers.length rows inserts) :
    Settled layers (insertRows rows inserts) ∧
      ∀ p, p < layers.length → landsAt (synthOps inserts) p = p := by
  induction inserts generalizing rows with
  | nil => exact ⟨h, fun _ _ => rfl⟩
  | cons entry rest ih =>
    obtain ⟨idx, data⟩ := entry
    obtain ⟨hidx, hmoved, hrest⟩ := hfit
    obtain ⟨hsettled, hlands⟩ := ih (h.insertIdx hidx hmoved data) hrest
    refine ⟨hsettled, fun p hp => ?_⟩
    rw [landsAt_synthOps_cons, placeAfter, if_neg (by omega)]
    exact hlands p hp

/-- What the rows show at the end, every insertion has to respect: a row that
comes to stand before an original layer does not take its index, and one that
comes to stand before another row has no larger index. -/
theorem insertsFit_of_found {f : Nat → Nat} (hmono : ∀ p q, p < q → f p < f q)
    (hbelow : IndicesBelow rows) (hrange : InRange rows.length inserts)
    (hordered : Ordered (insertRows rows inserts))
    (hfound : ∀ (p : Nat) (layer : LayerCollectionIR F), layers[p]? = some layer →
      ∀ (q : Nat) (row : LayerCollectionIR F), q < landsAt (synthOps inserts) (f p) →
        (insertRows rows inserts)[q]? = some row → row.globalLayerIndex ≠ p) :
    InsertsFit layers.length rows inserts := by
  induction inserts generalizing rows f with
  | nil => trivial
  | cons entry rest ih =>
    obtain ⟨idx, data⟩ := entry
    obtain ⟨hidx, hrest⟩ := hrange
    have hlength : (rows.insertIdx (idx + 1) (synthLayer rows idx data)).length = rows.length + 1 :=
      List.length_insertIdx_of_le_length (Nat.succ_le_of_lt hidx) _
    have hsynth : (rows.insertIdx (idx + 1) (synthLayer rows idx data))[idx + 1]? =
        some (synthLayer rows idx data) := by
      rw [List.getElem?_insertIdx_self, if_pos (by omega)]
    have hat := fun p => getElem?_insertRows
      (rows.insertIdx (idx + 1) (synthLayer rows idx data)) rest p
    refine ⟨?_, ?_, ?_⟩
    · by_contra hlt
      have hlt : idx + 1 < layers.length := Nat.lt_of_not_le hlt
      have hle : ∀ p, p ≤ f p := by
        intro p
        induction p with
        | zero => exact Nat.zero_le _
        | succ p ihp => exact Nat.succ_le_of_lt (Nat.lt_of_le_of_lt ihp (hmono p (p + 1) (by omega)))
      have hplace : idx + 1 < placeAfter (f (idx + 1)) (.InsertSynthLayer idx data) := by
        have := hle (idx + 1)
        simp only [placeAfter]
        split <;> omega
      refine hfound (idx + 1) _ (List.getElem?_eq_getElem hlt) _ (synthLayer rows idx data) ?_
        ((hat (idx + 1)).trans hsynth) rfl
      rw [landsAt_synthOps_cons]
      exact landsAt_lt hplace
    · intro row hrow
      refine Nat.le_antisymm (hbelow _ row hrow) ?_
      have hmoved : (rows.insertIdx (idx + 1) (synthLayer rows idx data))[idx + 1 + 1]? =
          some row := by
        rw [List.getElem?_insertIdx_of_gt (by omega), Nat.add_sub_cancel]
        exact hrow
      exact hordered _ _ _ _ (landsAt_lt (Nat.lt_succ_self (idx + 1)))
        ((hat (idx + 1)).trans hsynth) ((hat (idx + 1 + 1)).trans hmoved)
    · refine ih (f := fun p => placeAfter (f p) (.InsertSynthLayer idx data)) ?_
        (hbelow.insertIdx idx data) (hlength ▸ hrest) hordered hfound
      intro p q hpq
      have := hmono p q hpq
      simp only [placeAfter]
      split <;> split <;> omega

end Fit

/-! ### The merge -/

section Merge

variable {layers rows rows' : List (LayerCollectionIR F)}

/-- Without pushes nothing is sorted. -/
theorem mapM_sortPushed_nil (rows : List (LayerCollectionIR F)) :
    rows.mapM (sortPushed []) = .ok rows := by
  induction rows with
  | nil => rfl
  | cons row rest ih =>
    rw [List.mapM_cons, ih]
    rfl

theorem applyTo_synthOps [DecidableEq F] {inserts : List (Nat × SyntheticLayerData F)}
    (hrange : InRange layers.length inserts) :
    applyTo { mergeOps := synthOps inserts } layers =
      remapLayers (insertRows layers inserts) (nextGlobalEntityTag (insertRows layers inserts)) := by
  have hpushed : pushEntities layers [] = .ok layers := rfl
  unfold applyTo
  rw [hpushed]
  change (layers.mapM (sortPushed []) >>= _) = _
  rw [mapM_sortPushed_nil]
  change ((synthOps inserts).foldlM applyMergeOp layers >>= _) = _
  rw [foldlM_synthOps hrange]
  rfl

theorem RelockedLayer.index {layer layer' : LayerCollectionIR F} (h : RelockedLayer layer layer') :
    layer'.globalLayerIndex = layer.globalLayerIndex := by
  obtain ⟨entities, rfl, -⟩ := h
  rfl

theorem Relocked.ids {entities entities' : List (PrintEntity F)}
    (h : List.Forall₂ Relocked entities entities') :
    entities'.map (·.entityId) = entities.map (·.entityId) := by
  induction h with
  | nil => rfl
  | cons hfirst _ ih =>
    obtain ⟨lock, -, rfl⟩ := hfirst
    simpa using ih

theorem RelockedLayer.ids {layer layer' : LayerCollectionIR F} (h : RelockedLayer layer layer') :
    layer'.orderedEntities.map (·.entityId) = layer.orderedEntities.map (·.entityId) := by
  obtain ⟨entities, rfl, hentities⟩ := h
  exact Relocked.ids hentities

theorem rowEntityIds_relocked (h : List.Forall₂ RelockedLayer rows rows') :
    rowEntityIds rows' = rowEntityIds rows := by
  unfold rowEntityIds
  induction h with
  | nil => rfl
  | cons hfirst _ ih =>
    rw [List.flatMap_cons, List.flatMap_cons, List.map_append, List.map_append, ih, hfirst.ids]

theorem Ordered.relocked {R : LayerCollectionIR F → LayerCollectionIR F → Prop}
    (hR : ∀ a b, R a b → b.globalLayerIndex = a.globalLayerIndex) (h : List.Forall₂ R rows rows')
    (hordered : Ordered rows) : Ordered rows' := by
  intro p q a b hpq ha hb
  have hflip : List.Forall₂ (fun b a => R a b) rows' rows := h.flip
  obtain ⟨a', ha', haa⟩ := hflip.getElem?_some ha
  obtain ⟨b', hb', hbb⟩ := hflip.getElem?_some hb
  rw [hR a' a haa, hR b' b hbb]
  exact hordered p q a' b' hpq ha' hb'

/-- Insertions after positions in range: the merge succeeds with admissible rows exactly
when every insertion comes behind the original layers and moves no row of a smaller
index than its own, and the locks fit. -/
theorem synthetic_rows_admissible_iff [DecidableEq F] (layers : List (LayerCollectionIR F))
    (inserts : List (Nat × SyntheticLayerData F))
    (hindices : ∀ (p : Nat) (layer : LayerCollectionIR F), layers[p]? = some layer →
      layer.globalLayerIndex = p) (hrange : InRange layers.length inserts) :
    (∃ rows, applyTo { mergeOps := synthOps inserts } layers = .ok rows ∧
      Admissible layers (synthOps inserts) rows) ↔
        InsertsFit layers.length layers inserts ∧ LocksFit layers inserts := by
  rw [applyTo_synthOps hrange]
  have hbelow : IndicesBelow layers := fun p layer hp => le_of_eq (hindices p layer hp)
  constructor
  · rintro ⟨rows, hrows, hadmissible⟩
    have hrelocked := remapLayers_relocked hrows
    have hflip : List.Forall₂ (fun b a => RelockedLayer a b) rows (insertRows layers inserts) :=
      hrelocked.flip
    refine ⟨?_, fun layer hlayer => ?_, ?_⟩
    · refine insertsFit_of_found (f := fun p => p) (fun _ _ hpq => hpq) hbelow hrange ?_ ?_
      · exact (validateMonotonic_ok_iff.mp hadmissible.monotonic).relocked
          (fun a b hab => hab.index.symm) hflip
      · intro p layer hp q row hq hrow
        have hfound := hadmissible.originals p layer hp
        obtain ⟨row', hrow', hsame⟩ := hrelocked.getElem?_some hrow
        rw [hindices p layer hp] at hfound
        rw [← hsame.index]
        exact (findLayer_eq_some_iff.mp hfound).2.2 q row' hq hrow'
    · obtain ⟨p, hp⟩ := List.mem_iff_getElem?.mp hlayer
      have hfound := getElem?_of_findLayer (hadmissible.originals p layer hp)
      obtain ⟨row, -, hsame⟩ := hflip.getElem?_some hfound
      exact hsame.noLocalTag
    · rw [← nextGlobalEntityTag_eq]
      exact exists_remapLayers_iff.mp ⟨rows, hrows⟩
  · rintro ⟨hfit, hlocks⟩
    have hpass := hlocks.pass
    rw [← nextGlobalEntityTag_eq] at hpass
    obtain ⟨rows, hrows⟩ := exists_remapLayers_iff.mpr hpass
    have hrelocked := remapLayers_relocked hrows
    have hflip : List.Forall₂ (fun b a => RelockedLayer a b) rows (insertRows layers inserts) :=
      hrelocked.flip
    have hstart : Settled layers layers := by
      refine ⟨fun _ _ => rfl, hbelow, fun p q a b hpq ha hb => ?_⟩
      rw [hindices p a ha, hindices q b hb]
      exact Nat.le_of_lt hpq
    obtain ⟨hsettled, hlands⟩ := hstart.insertRows hfit
    refine ⟨rows, hrows, ?_, fun p layer hp => ?_, ?_⟩
    · exact validateMonotonic_ok_iff.mpr
        (hsettled.ordered.relocked (fun a b hab => hab.index) hrelocked)
    · have hlt := (List.getElem?_eq_some_iff.mp hp).1
      obtain ⟨row, hrow, hsame⟩ := hrelocked.getElem?_some ((hsettled.leads p hlt).trans hp)
      rw [hsame.eq_of_noLocalTag (hlocks.originals layer (List.mem_of_getElem? hp))] at hrow
      rw [hlands p hlt, hindices p layer hp]
      refine findLayer_eq_some_iff.mpr ⟨hrow, hindices p layer hp, ?_⟩
      intro j other hj hother
      obtain ⟨leading, hleading, hsame'⟩ := hflip.getElem?_some hother
      rw [hsettled.leads j (Nat.lt_trans hj hlt)] at hleading
      rw [hsame'.index, hindices j leading hleading]
      exact Nat.ne_of_lt hj
    · rw [rowEntityIds_relocked hrelocked]
      exact exists_fresh_ids hrange

end Merge

/-- A layer without entities. -/
def emptyRow (index : Nat) : LayerCollectionIR ℚ := { globalLayerIndex := index, z := index }

/-- A layer with a wall that holds a lock the host has renumbered. -/
def lockedRow (index : Nat) : LayerCollectionIR ℚ :=
  { globalLayerIndex := index, z := index
    orderedEntities := [
      { entityId := index
        path := { points := [], role := .OuterWall, speedFactor := 1, orderLock := some globalBit }
        role := .OuterWall, regionKey := {}, topoOrder := 0, toolIndex := 0 }] }

/-- A purge at a height. -/
def purge (z : ℚ) (orderLock : Option Nat := none) : SyntheticLayerData ℚ :=
  { z := z
    paths := [{ points := [], role := .WipeTower, speedFactor := 1, orderLock := orderLock }] }

/-- A purge under a lock of its module behind two layers: they stay, and the lock of the purge
is renumbered. -/
theorem synthetic_rows_admissible_appended : ∃ rows,
    applyTo { mergeOps := synthOps [(1, purge 9 (some 3))] } [lockedRow 0, lockedRow 1] =
      .ok rows ∧
    Admissible [lockedRow 0, lockedRow 1] (synthOps [(1, purge 9 (some 3))]) rows := by
  refine (synthetic_rows_admissible_iff [lockedRow 0, lockedRow 1] [(1, purge 9 (some 3))] ?_
    ⟨by decide, trivial⟩).mpr ⟨⟨by decide, (fun _ hrow => nomatch hrow), trivial⟩, ?_, ?_⟩
  · intro p layer hp
    match p with
    | 0 =>
      cases hp
      rfl
    | 1 =>
      cases hp
      rfl
    | p + 2 => cases hp
  · intro layer hlayer e he
    have hglobal : ∀ layer ∈ [lockedRow 0, lockedRow 1], ∀ e ∈ layer.orderedEntities,
        e.path.orderLock = some globalBit := by decide
    rw [hglobal layer hlayer e he]
    rintro _ ⟨⟩
    decide
  · exact .inr ⟨by decide, by decide, .inr ⟨by decide, by decide,
      .inl ⟨by decide, by decide, trivial⟩⟩⟩

/-- Two purges between three layers. -/
def purgingBuilder : FinalizationOutputBuilder ℚ :=
  { mergeOps := synthOps [(0, purge 7), (1, purge 8)] }

/-- Two insertions after positions in range: the host rejects the indices, and the
index of the second layer finds a purge. -/
theorem purges_take_indices :
    InRange 3 [(0, purge 7), (1, purge 8)] ∧
    ∃ rows, applyTo purgingBuilder [emptyRow 0, emptyRow 1, emptyRow 2] = .ok rows ∧
      rows.map (·.z) = [0, 7, 8, 1, 2] ∧
      validateMonotonic rows = .error "layer indices must be monotonic, found 2 followed by 1" ∧
      (findLayer rows 1).map (·.2.z) = some 7 := by
  refine ⟨⟨by decide, by decide, trivial⟩, insertRows [emptyRow 0, emptyRow 1, emptyRow 2]
    [(0, purge 7), (1, purge 8)], ?_, rfl, rfl, rfl⟩
  decide +kernel

end PinchNPrint.Layer
