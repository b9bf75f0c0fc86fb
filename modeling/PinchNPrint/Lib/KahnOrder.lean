/-
What Kahn's loop emits, beyond an order that respects the edges.

- `Inv.unsorted_iff`: the vertices a finished loop never emits are exactly
  those on a cycle or below one.
- `drain_leads`: popping the least ready vertex emits a list that no linear
  extension undercuts, position by position.
- `length_drain_le`: no vertex is emitted twice, even when the in-degrees count
  more edges than the loop releases.
-/

import PinchNPrint.Lib.Kahn

namespace Digraph

open Relation

variable {V : Type} {nodes : List V} {E : V → V → Prop}

/-- `v` lies on a cycle of listed vertices, or is reachable from one. -/
def BelowCycle (nodes : List V) (E : V → V → Prop) (v : V) : Prop :=
  ∃ c, TransGen (On nodes E) c c ∧ ReflTransGen (On nodes E) c v

theorem BelowCycle.mem {v : V} (h : BelowCycle nodes E v) : v ∈ nodes := by
  obtain ⟨c, cycle, walk⟩ := h
  rcases reflTransGen_iff_eq_or_transGen.mp walk with rfl | walk
  · exact (mem_of_transGen_on cycle).1
  · exact (mem_of_transGen_on walk).2

/-- Walking backwards inside a set that every member is entered from ends in a
cycle. -/
theorem belowCycle_of_entered {s : Set V} (hs : ∀ v ∈ s, v ∈ nodes)
    (entered : ∀ v ∈ s, ∃ u ∈ s, E u v) {v : V} (hv : v ∈ s) : BelowCycle nodes E v := by
  classical
  by_contra hno
  -- Without such a cycle the part of the graph above `v` is acyclic.
  let above := nodes.filter fun w => ReflTransGen (On nodes E) w v
  have habove : ∀ w, w ∈ above ↔ w ∈ nodes ∧ ReflTransGen (On nodes E) w v := by
    intro w
    simp [above]
  have acyclic : AcyclicOn above E := by
    intro c cycle
    have hc := (habove c).mp (mem_of_transGen_on cycle).1
    have hmono : ∀ a b, On above E a b → On nodes E a b := fun a b edge =>
      ⟨((habove a).mp edge.1).1, ((habove b).mp edge.2.1).1, edge.2.2⟩
    exact hno ⟨c, TransGen.mono hmono _ _ cycle, hc.2⟩
  obtain ⟨m, ⟨hm, hmv⟩, least⟩ := acyclic.exists_source
    (s := {w | w ∈ s ∧ ReflTransGen (On nodes E) w v})
    (fun w hw => (habove w).mpr ⟨hs w hw.1, hw.2⟩) ⟨v, hv, ReflTransGen.refl⟩
  obtain ⟨u, hu, edge⟩ := entered m hm
  exact least u ⟨hu, ReflTransGen.head ⟨hs u hu, hs m hm, edge⟩ hmv⟩ edge

end Digraph

namespace Kahn

open Std Relation Digraph

variable {V R : Type} [Ord V] [TransOrd V] [LawfulEqOrd V] [DecidableEq V]

/-! ### The vertices that are never emitted -/

section Residue

variable {F : Frontier V R} {nodes : List V} {succ : V → List V} {s : State V R}

section

omit [LawfulEqOrd V]

/-- Everything above an emitted vertex was emitted before it. -/
theorem Inv.precedes_of_transGen (h : Inv F nodes succ s) {u v : V}
    (walk : TransGen (On nodes fun u v => v ∈ succ u) u v) (hv : v ∈ s.sorted) :
    Precedes s.sorted u v := by
  induction walk with
  | single edge => exact h.forward _ edge.1 _ hv edge.2.2
  | tail _ edge ih =>
    have hlast := h.forward _ edge.1 _ hv edge.2.2
    exact (ih hlast.mem_left).trans hlast

/-- A finished loop leaves out exactly the vertices on a cycle or below one. -/
theorem Inv.unsorted_iff (h : Inv F nodes succ s) (hready : F.elems s.ready = []) {v : V} :
    v ∈ nodes ∧ v ∉ s.sorted ↔ BelowCycle nodes (fun u v => v ∈ succ u) v := by
  constructor
  · refine belowCycle_of_entered (s := {w | w ∈ nodes ∧ w ∉ s.sorted}) (fun w hw => hw.1) ?_
    rintro w ⟨hw, hout⟩
    have hne : pending nodes succ s.sorted w ≠ 0 := by
      intro hzero
      have hmem := (h.zero w hw).mpr hzero
      rw [hready, List.append_nil] at hmem
      exact hout hmem
    obtain ⟨u, hu, hus, edge⟩ := exists_of_pending_ne_zero hne
    exact ⟨u, ⟨hu, hus⟩, edge⟩
  · intro hbelow
    refine ⟨hbelow.mem, fun hmem => ?_⟩
    obtain ⟨c, cycle, walk⟩ := hbelow
    have hc : c ∈ s.sorted := by
      rcases reflTransGen_iff_eq_or_transGen.mp walk with rfl | walk
      · exact hmem
      · exact (h.precedes_of_transGen walk hmem).mem_left
    exact not_precedes_self s.sorted c (h.precedes_of_transGen cycle hc)

/-- What is left over still has a positive in-degree, and nothing else has. -/
theorem Inv.degree_pos_iff (h : Inv F nodes succ s) (hready : F.elems s.ready = []) {v : V} :
    (∃ d, s.degree[v]? = some d ∧ 0 < d) ↔ v ∈ nodes ∧ v ∉ s.sorted := by
  by_cases hv : v ∈ nodes
  · have hzero := h.zero v hv
    rw [hready, List.append_nil] at hzero
    rw [h.count v hv, hzero]
    simp [hv, Nat.pos_iff_ne_zero]
  · rw [h.absent v hv]
    simp [hv]

end

end Residue

/-! ### The least order -/

section Least

section

omit [TransOrd V] [LawfulEqOrd V] [DecidableEq V]

/-- The two lists first differ at a position where the first one has the lesser
vertex. -/
inductive Undercuts : List V → List V → Prop
  | head {v w : V} (h : compare v w = .lt) (l r : List V) : Undercuts (v :: l) (w :: r)
  | tail (v : V) {l r : List V} (h : Undercuts l r) : Undercuts (v :: l) (v :: r)

theorem Undercuts.append_right {l r : List V} (h : Undercuts l r) (x : List V) :
    Undercuts (l ++ x) r := by
  induction h with
  | head h l r => exact .head h _ _
  | tail v _ ih => exact .tail v ih

theorem Undercuts.append_left {l r : List V} (h : Undercuts l r) (x : List V) :
    Undercuts (x ++ l) (x ++ r) := by
  induction x with
  | nil => exact h
  | cons v x ih => exact .tail v ih

/-- `l` agrees with `other` as far as it goes, or undercuts it. -/
def Leads (l other : List V) : Prop :=
  l <+: other ∨ Undercuts l other

end

variable {nodes : List V} {succ : V → List V} {s : State V (BTreeSet V)}

theorem Inv.mem_ready_of_next (h : Inv leastFirst nodes succ s) (hnodes : nodes.Nodup)
    {w : V} {rest : List V}
    (ext : LinearExtension nodes (fun u v => v ∈ succ u) (s.sorted ++ w :: rest)) :
    w ∈ s.ready := by
  have hw : w ∈ nodes := ext.perm.mem_iff.mp (by simp)
  have hnodup : (s.sorted ++ w :: rest).Nodup := ext.perm.nodup_iff.mpr hnodes
  have hout : w ∉ s.sorted := fun hmem =>
    (List.nodup_append.mp hnodup).2.2 w hmem w List.mem_cons_self rfl
  have hzero : pending nodes succ s.sorted w = 0 := by
    by_contra hne
    obtain ⟨u, hu, hus, edge⟩ := exists_of_pending_ne_zero hne
    have hbefore := (ext.forward u w ⟨hu, hw, edge⟩).2
    rw [List.idxOf_append_of_notMem hus, List.idxOf_append_of_notMem hout,
      List.idxOf_cons_self] at hbefore
    omega
  have hmem := (h.zero w hw).mpr hzero
  have hready : w ∈ s.ready.toList := (List.mem_append.mp hmem).resolve_left hout
  exact ExtTreeSet.mem_toList.mp hready

/-- One pop keeps the emitted list ahead of every linear extension. -/
theorem Inv.leads_step (h : Inv leastFirst nodes succ s) (hnodes : nodes.Nodup) {v : V}
    {rest : BTreeSet V} (hpop : leastFirst.pop s.ready = some (v, rest)) {other : List V}
    (ext : LinearExtension nodes (fun u v => v ∈ succ u) other) (hleads : Leads s.sorted other) :
    Leads (s.sorted ++ [v]) other := by
  rcases hleads with ⟨tail, rfl⟩ | hless
  · obtain ⟨v', hmin, heq⟩ := Option.map_eq_some_iff.mp hpop
    obtain ⟨rfl, rfl⟩ := Prod.mk.inj heq
    obtain ⟨hmem, hleast⟩ := ExtTreeSet.min?_eq_some_iff_mem_and_forall.mp hmin
    have hready : v' ∈ s.sorted ++ leastFirst.elems s.ready :=
      List.mem_append_right _ (ExtTreeSet.mem_toList.mpr hmem)
    cases tail with
    | nil =>
      -- The extension is used up, yet `v'` is listed and not emitted.
      have hlisted := ext.perm.mem_iff.mpr (h.listed v' hready)
      rw [List.append_nil] at hlisted
      exact absurd rfl ((List.nodup_append.mp h.nodup).2.2 v' hlisted v'
        (ExtTreeSet.mem_toList.mpr hmem))
    | cons w tail =>
      have hle := hleast w (h.mem_ready_of_next hnodes ext)
      rcases Ordering.isLE_iff_eq_lt_or_eq_eq.mp hle with hlt | heq
      · exact .inr (Undercuts.append_left (.head hlt [] tail) s.sorted)
      · obtain rfl := compare_eq_iff_eq.mp heq
        exact .inl ⟨tail, by simp⟩
  · exact .inr (hless.append_right [v])

/-- **Canonicity.** Popping the least ready vertex keeps the emitted list ahead
of every linear extension. -/
theorem drain_leads (hnodes : nodes.Nodup) (fuel : Nat) (h : Inv leastFirst nodes succ s)
    {other : List V} (ext : LinearExtension nodes (fun u v => v ∈ succ u) other)
    (hleads : Leads s.sorted other) :
    Leads (drain leastFirst succ fuel s).sorted other := by
  induction fuel generalizing s with
  | zero => exact hleads
  | succ fuel ih =>
    cases hpop : leastFirst.pop s.ready with
    | none =>
      simp only [drain, hpop]
      exact hleads
    | some p =>
      obtain ⟨v, rest⟩ := p
      simp only [drain, hpop]
      exact ih (h.step hnodes hpop) (h.leads_step hnodes hpop ext hleads)

end Least

/-! ### In-degrees that count too much -/

section Overcount

/-- The degree map and frontier while the edges `rest` of the popped vertex are
still to be relaxed, when a degree may also count edges that are never
released. -/
structure Overcounts (F : Frontier V R) (ids done : List V) (base : V → Nat) (rest : List V)
    (s : BTreeMap V Nat × R) : Prop where
  nodup : (done ++ F.elems s.2).Nodup
  zero : ∀ v ∈ done ++ F.elems s.2, s.1[v]? = some 0
  listed : ∀ v d, s.1[v]? = some d → v ∈ ids
  count : ∀ v d, s.1[v]? = some d → base v + rest.count v ≤ d

variable {F : Frontier V R} {ids done : List V} {base : V → Nat}

theorem Overcounts.step {e : V} {rest : List V} {s : BTreeMap V Nat × R}
    (h : Overcounts F ids done base (e :: rest) s) :
    Overcounts F ids done base rest (relax F s e) := by
  cases hdeg : s.1[e]? with
  | none =>
    simp only [relax, hdeg]
    refine ⟨h.nodup, h.zero, h.listed, fun v d hd => ?_⟩
    have hcount := h.count v d hd
    have := List.count_le_count_cons (a := v) (b := e) (l := rest)
    omega
  | some d =>
    have hcount := h.count e d hdeg
    rw [List.count_cons_self] at hcount
    -- A positive degree: the target was neither emitted nor ready.
    have hfresh : e ∉ done ++ F.elems s.2 := by
      intro hmem
      have hzero := h.zero e hmem
      rw [hdeg, Option.some_inj] at hzero
      omega
    have hready : e ∉ F.elems s.2 := fun hmem => hfresh (List.mem_append_right _ hmem)
    have hpush : (done ++ F.elems (F.push s.2 e)).Perm (e :: (done ++ F.elems s.2)) :=
      ((F.push_perm hready).append_left done).trans List.perm_middle
    have hold : ∀ v ∈ done ++ F.elems s.2, (s.1.insert e (d - 1))[v]? = some 0 := by
      intro v hv
      have hne : e ≠ v := by
        rintro rfl
        exact hfresh hv
      rw [BTreeMap.getElem?_insert_of_ne hne]
      exact h.zero v hv
    simp only [relax, hdeg]
    refine ⟨?_, ?_, ?_, ?_⟩
    · split
      · exact hpush.nodup_iff.mpr (List.nodup_cons.mpr ⟨hfresh, h.nodup⟩)
      · exact h.nodup
    · split
      · rename_i hz
        intro v hv
        rcases List.mem_cons.mp (hpush.mem_iff.mp hv) with rfl | hv
        · rw [hz]
          exact ExtTreeMap.getElem?_insert_self
        · exact hold v hv
      · exact hold
    · intro v d' hd'
      rcases BTreeMap.getElem?_insert_cases hd' with ⟨rfl, -⟩ | hd'
      · exact h.listed v d hdeg
      · exact h.listed v d' hd'
    · intro v d' hd'
      rcases BTreeMap.getElem?_insert_cases hd' with ⟨rfl, rfl⟩ | hd'
      · omega
      · have hcount := h.count v d' hd'
        have := List.count_le_count_cons (a := v) (b := e) (l := rest)
        omega

theorem Overcounts.foldl (rest : List V) {s : BTreeMap V Nat × R}
    (h : Overcounts F ids done base rest s) :
    Overcounts F ids done base [] (rest.foldl (relax F) s) := by
  induction rest generalizing s with
  | nil => exact h
  | cons e rest ih => exact ih h.step

/-- One pop preserves the bound. -/
theorem Overcounts.pop {succ : V → List V} (hids : ids.Nodup) {s : State V R}
    (h : Overcounts F ids s.sorted (pending ids succ s.sorted) [] (s.degree, s.ready)) {v : V}
    {rest : R} (hpop : F.pop s.ready = some (v, rest)) :
    Overcounts F ids (s.sorted ++ [v]) (pending ids succ (s.sorted ++ [v])) []
      ((succ v).foldl (relax F) (s.degree, rest)) := by
  have hperm : (s.sorted ++ [v] ++ F.elems rest).Perm (s.sorted ++ F.elems s.ready) := by
    simpa using (F.pop_some hpop).symm.append_left s.sorted
  have hready : v ∈ F.elems s.ready := (F.pop_some hpop).mem_iff.mpr (by simp)
  have hv : v ∈ ids := h.listed v 0 (h.zero v (List.mem_append_right _ hready))
  have hdone : v ∉ s.sorted := fun hmem =>
    (List.nodup_append.mp h.nodup).2.2 v hmem v hready rfl
  refine Overcounts.foldl (succ v) ⟨hperm.nodup_iff.mpr h.nodup,
    fun w hw => h.zero w (hperm.mem_iff.mp hw), h.listed, fun w d hd => ?_⟩
  have hcount := h.count w d hd
  rw [pending_snoc hids succ hv hdone w] at hcount
  simp only [List.count_nil] at hcount
  omega

/-- However often the loop pops, it never emits a vertex twice: at most
`ids.length` vertices come out. -/
theorem length_drain_le {succ : V → List V} (hids : ids.Nodup) (fuel : Nat) {s : State V R}
    (h : Overcounts F ids s.sorted (pending ids succ s.sorted) [] (s.degree, s.ready)) :
    (drain F succ fuel s).sorted.length ≤ ids.length := by
  induction fuel generalizing s with
  | zero =>
    have hnd : s.sorted.Nodup := (List.nodup_append.mp h.nodup).1
    exact (hnd.subperm fun v hv =>
      h.listed v 0 (h.zero v (List.mem_append_left _ hv))).length_le
  | succ fuel ih =>
    cases hpop : F.pop s.ready with
    | none =>
      simp only [drain, hpop]
      have hnd : s.sorted.Nodup := (List.nodup_append.mp h.nodup).1
      exact (hnd.subperm fun v hv =>
        h.listed v 0 (h.zero v (List.mem_append_left _ hv))).length_le
    | some p =>
      obtain ⟨v, rest⟩ := p
      simp only [drain, hpop]
      exact ih (h.pop hids hpop)

end Overcount

end Kahn
