/-
Linking conserves the infill.

An output path is a chain: input paths strung along it, each forward or reversed, with
contour points between and around them. `connect_infill_conserves` says that the linker
always ends, and that every input path of at least two points is in one chain, once, with
the attributes of the output path it is in. The joins it makes name every endpoint at most
once, and none of them joins two paths that earlier joins already connect.

One candidate is taken apart in `LinkStep`; what the loop keeps is in `Linked`.
-/

import Mathlib.Data.List.Count
import PinchNPrint.Lib.Checked
import PinchNPrint.Lib.Strung
import PinchNPrint.Linker.Connect

namespace PinchNPrint.Linker

open Layer OrderedForest

variable {F : Type}

/-! ### Chains -/

/-- An input path in a chain, and whether the chain runs through it backwards. -/
structure Member where
  index : Nat
  reversed : Bool
deriving DecidableEq

/-- The points of a member, in the order of the chain. -/
def Member.run (paths : List (ExtrusionPath3D F)) (member : Member) :
    List (Point3WithWidth F) :=
  let points := (paths[member.index]?.map (·.points)).getD []
  if member.reversed then points.reverse else points

/-- The member seen from the other end of its chain. -/
def Member.flip (member : Member) : Member :=
  { member with reversed := !member.reversed }

/-- The attributes that joined paths have to share. -/
def SameAttributes (path other : ExtrusionPath3D F) : Prop :=
  path.role = other.role ∧ path.speedFactor = other.speedFactor ∧
    path.toolIndex = other.toolIndex

/-- The path runs through the members of the chain, and has their attributes. -/
structure Carries (paths : List (ExtrusionPath3D F)) (chain : List Member)
    (path : ExtrusionPath3D F) : Prop where
  strung : Strung (chain.map (Member.run paths)) path.points
  attributes : ∀ member ∈ chain,
    ∃ input, paths[member.index]? = some input ∧ SameAttributes input path

/-- How often the input at `index` is a member. -/
def occurrences (index : Nat) (chains : List (List Member)) : Nat :=
  chains.flatten.countP fun member => member.index = index

/-- Every input path of at least two points is in one of the outputs, once. -/
def Conserved (paths out : List (ExtrusionPath3D F)) : Prop :=
  ∃ chains, List.Forall₂ (Carries paths) chains out ∧
    ∀ index path, paths[index]? = some path → 2 ≤ path.points.length →
      occurrences index chains = 1

/-! ### Joins -/

/-- An endpoint of an input: the path and which end of it. -/
def Endpoint.key (endpoint : Endpoint F) : Nat × Bool :=
  (endpoint.pathIndex, endpoint.atStart)

/-- The endpoints that joins name. -/
def namedEndpoints (joins : List (Candidate F)) : List (Nat × Bool) :=
  joins.flatMap fun join => [join.first.key, join.second.key]

/-- The joins connect the two paths. -/
def Connected (joins : List (Candidate F)) : Nat → Nat → Prop :=
  Relation.EqvGen fun i j => ∃ join ∈ joins, join.first.pathIndex = i ∧ join.second.pathIndex = j

/-- No join is between two paths that the joins before it already connect. -/
def ClosesNoLoop (joins : List (Candidate F)) : Prop :=
  ∀ earlier join later, joins = earlier ++ join :: later →
    ¬ Connected earlier join.first.pathIndex join.second.pathIndex

/-! ### One candidate -/

/-- The path, or the path backwards. -/
def Turned (path turned : ExtrusionPath3D F) : Prop :=
  turned = path ∨ turned = reversePoints path

/-- The path after points were put at its ends. -/
def Extended (path extended : ExtrusionPath3D F) : Prop :=
  ∃ turned lead trail, Turned path turned ∧
    extended = { turned with points := lead ++ turned.points ++ trail }

variable {path : ExtrusionPath3D F}

theorem Turned.extended {turned : ExtrusionPath3D F} (h : Turned path turned) :
    Extended path turned :=
  ⟨turned, [], [], h, by simp⟩

theorem Turned.extend {turned : ExtrusionPath3D F} (h : Turned path turned)
    (trail : List (Point3WithWidth F)) :
    Extended path { turned with points := turned.points ++ trail } :=
  ⟨turned, [], trail, h, by simp⟩

theorem Turned.prepend {turned : ExtrusionPath3D F} (h : Turned path turned)
    (lead : List (Point3WithWidth F)) :
    Extended path { turned with points := lead ++ turned.points } :=
  ⟨turned, lead, [], h, by simp⟩

theorem turned_ite (path : ExtrusionPath3D F) (b : Bool) :
    Turned path (if b then reversePoints path else path) := by
  cases b with
  | true => exact .inr rfl
  | false => exact .inl rfl

/-- Both endpoints of the candidate were free, and are marked. -/
structure Marked (consumed : List (Bool × Bool)) (candidate : Candidate F)
    (consumed' : List (Bool × Bool)) : Prop where
  length : consumed'.length = consumed.length
  free_first : endpointConsumed consumed candidate.first = some false
  free_second : endpointConsumed consumed candidate.second = some false
  first : endpointConsumed consumed' candidate.first = some true
  second : endpointConsumed consumed' candidate.second = some true
  keeps : ∀ endpoint : Endpoint F, endpointConsumed consumed endpoint = some true →
    endpointConsumed consumed' endpoint = some true

/-- The candidate leads to two different paths, in the slots `r` and `s`. -/
structure Located (st : LinkState F) (candidate : Candidate F) (r s : Nat)
    (first second : ExtrusionPath3D F) : Prop where
  root_first : Root st.mergedWith candidate.first.pathIndex r
  root_second : Root st.mergedWith candidate.second.pathIndex s
  ne : r ≠ s
  first : st.active[r]? = some (some first)
  second : st.active[s]? = some (some second)

/-- What a candidate may do. In each case the table may have been compressed. -/
inductive LinkStep (st : LinkState F) (candidate : Candidate F) : LinkState F → Prop where
  /-- The candidate is passed over. -/
  | pass {table : List Nat} : Ordered table → SameRoots st.mergedWith table →
      LinkStep st candidate { st with mergedWith := table }
  /-- The two paths stay apart. -/
  | hold {table : List Nat} {consumed : List (Bool × Bool)} {r s : Nat}
      {first second first' second' : ExtrusionPath3D F} :
      Ordered table → SameRoots st.mergedWith table →
      Located st candidate r s first second → Marked st.consumed candidate consumed →
      Extended first first' → Extended second second' →
      LinkStep st candidate { st with
        active := (st.active.set r (some first')).set s (some second')
        consumed
        mergedWith := table }
  /-- The two paths are joined in the lower slot. -/
  | join {table : List Nat} {consumed : List (Bool × Bool)} {r s : Nat}
      {first second first' second' : ExtrusionPath3D F} {connector : List (Point3WithWidth F)} :
      Ordered table → SameRoots st.mergedWith table →
      Located st candidate r s first second → Marked st.consumed candidate consumed →
      Turned first first' → Turned second second' →
      LinkStep st candidate {
        active := ((st.active.set r none).set s none).set (min r s)
          (some { first' with points := first'.points ++ connector ++ second'.points })
        consumed
        mergedWith := table.set (max r s) (min r s)
        joins := st.joins ++ [candidate] }

section Step

/-- Marking an endpoint of the table marks it, and unmarks none. -/
theorem exists_mark {consumed : List (Bool × Bool)} {endpoint : Endpoint F}
    (h : endpoint.pathIndex < consumed.length) :
    ∃ consumed', markEndpointConsumed consumed endpoint = some consumed' ∧
      consumed'.length = consumed.length ∧
      endpointConsumed consumed' endpoint = some true ∧
      ∀ other : Endpoint F, endpointConsumed consumed other = some true →
        endpointConsumed consumed' other = some true := by
  refine ⟨_, by rw [markEndpointConsumed, List.getElem?_eq_getElem h]; rfl, by simp, ?_, ?_⟩
  · rw [endpointConsumed, List.getElem?_set_self h]
    cases endpoint.atStart <;> rfl
  · intro other hother
    by_cases hindex : endpoint.pathIndex = other.pathIndex
    · rw [endpointConsumed, ← hindex, List.getElem?_eq_getElem h] at hother
      rw [endpointConsumed, ← hindex, List.getElem?_set_self h]
      cases endpoint.atStart <;> cases hside : other.atStart <;> simp_all
    · rwa [endpointConsumed, List.getElem?_set_ne hindex]

theorem lt_of_endpointConsumed {consumed : List (Bool × Bool)} {endpoint : Endpoint F} {b : Bool}
    (h : endpointConsumed consumed endpoint = some b) : endpoint.pathIndex < consumed.length := by
  obtain ⟨slots, hslots, _⟩ := Option.map_eq_some_iff.mp h
  exact (List.getElem?_eq_some_iff.mp hslots).1

theorem exists_marked {consumed : List (Bool × Bool)} {candidate : Candidate F}
    (hfirst : endpointConsumed consumed candidate.first = some false)
    (hsecond : endpointConsumed consumed candidate.second = some false) :
    ∃ marked marked', markEndpointConsumed consumed candidate.first = some marked ∧
      markEndpointConsumed marked candidate.second = some marked' ∧
      Marked consumed candidate marked' := by
  obtain ⟨marked, hmarked, hlength, hmark, hkeeps⟩ :=
    exists_mark (lt_of_endpointConsumed hfirst)
  have hlt : candidate.second.pathIndex < marked.length := by
    rw [hlength]
    exact lt_of_endpointConsumed hsecond
  obtain ⟨marked', hmarked', hlength', hmark', hkeeps'⟩ := exists_mark hlt
  exact ⟨marked, marked', hmarked, hmarked', hlength'.trans hlength, hfirst, hsecond,
    hkeeps' _ hmark, hmark', fun endpoint h => hkeeps' _ (hkeeps _ h)⟩

theorem mergedRepresentative_eq {table : List Nat} {i : Nat} (hord : Ordered table)
    (hi : i < table.length) :
    ∃ r, mergedRepresentative table i = some (r, table.set i r) ∧ Root table i r ∧
      Ordered (table.set i r) ∧ SameRoots table (table.set i r) := by
  obtain ⟨r, hchase, hroot⟩ := hord.chase_eq hi
  refine ⟨r, ?_, hroot, hord.set (hord.root_le hroot), sameRoots_compress hord hroot⟩
  rw [mergedRepresentative, hchase]
  rfl

variable [Field F] [LinearOrder F] {contour : Contour F}

theorem extended_anchorPaths {ring : BoundaryRing F} {candidate : Candidate F} {units : F}
    {firstPositions secondPositions : List F} {first second first' second' : ExtrusionPath3D F}
    (hfirst : Turned first first') (hsecond : Turned second second') :
    Extended first (anchorPaths contour ring candidate units firstPositions secondPositions
      first' second').1 ∧
    Extended second (anchorPaths contour ring candidate units firstPositions secondPositions
      first' second').2 := by
  unfold anchorPaths
  split
  · exact ⟨hfirst.extend _, hsecond.prepend _⟩
  · exact ⟨hfirst.extended, hsecond.extended⟩

variable {rings : List (BoundaryRing F)} {units maxUnits : F} {positions : List (List F)}
  {st : LinkState F} {candidate : Candidate F} {ring : BoundaryRing F}

theorem splicePaths_step {table : List Nat} {r s : Nat} {first second : ExtrusionPath3D F}
    (hord : Ordered table) (hroots : SameRoots st.mergedWith table)
    (hlocated : Located st candidate r s first second)
    (hfirst : endpointConsumed st.consumed candidate.first = some false)
    (hsecond : endpointConsumed st.consumed candidate.second = some false)
    (hring : candidate.first.position.ringIndex < positions.length)
    (hring' : candidate.second.position.ringIndex < positions.length)
    (firstAtStart secondAtStart : Bool) :
    ∃ st', splicePaths contour units maxUnits positions ring candidate
        { st with mergedWith := table } r s first second firstAtStart secondAtStart = some st' ∧
      LinkStep st candidate st' := by
  obtain ⟨marked, marked', hmark, hmark', hmarked⟩ := exists_marked hfirst hsecond
  have hturned := turned_ite first firstAtStart
  have hturned' : Turned second (if secondAtStart then second else reversePoints second) := by
    cases secondAtStart with
    | true => exact .inl rfl
    | false => exact .inr rfl
  simp only [splicePaths, hmark, hmark', Option.bind_eq_bind, Option.bind_some,
    List.getElem?_eq_getElem hring, List.getElem?_eq_getElem hring']
  split
  · exact ⟨_, rfl, .join hord hroots hlocated hmarked hturned hturned'⟩
  · split
    · obtain ⟨hextended, hextended'⟩ := extended_anchorPaths hturned hturned'
      exact ⟨_, rfl, .hold hord hroots hlocated hmarked hextended hextended'⟩
    · exact ⟨_, rfl, .hold hord hroots hlocated hmarked (Turned.extended (.inl rfl))
        (Turned.extended (.inl rfl))⟩

/-- The tables have an entry for each of the `n` paths, and no pointer goes up. -/
structure WellFormed (n : Nat) (st : LinkState F) : Prop where
  active : st.active.length = n
  consumed : st.consumed.length = n
  table : st.mergedWith.length = n
  ordered : Ordered st.mergedWith

/-- A candidate between paths of the tables never panics and its chases end. -/
theorem linkCandidate_step {n : Nat} (hwf : WellFormed n st)
    (hfirst : candidate.first.pathIndex < n) (hsecond : candidate.second.pathIndex < n)
    (hpositions : positions.length = rings.length) :
    ∃ st', linkCandidate contour rings units maxUnits positions st candidate = some st' ∧
      LinkStep st candidate st' := by
  have hpass : LinkStep st candidate st := .pass hwf.ordered (SameRoots.refl _)
  have hget := List.getElem?_eq_getElem (hwf.consumed.symm ▸ hfirst)
  have hget' := List.getElem?_eq_getElem (hwf.consumed.symm ▸ hsecond)
  obtain ⟨b, hb⟩ : ∃ b, endpointConsumed st.consumed candidate.first = some b :=
    ⟨_, by rw [endpointConsumed, hget]; rfl⟩
  obtain ⟨b', hb'⟩ : ∃ b, endpointConsumed st.consumed candidate.second = some b :=
    ⟨_, by rw [endpointConsumed, hget']; rfl⟩
  simp only [linkCandidate, hb, hb', Option.bind_eq_bind, Option.bind_some]
  cases b with
  | true => exact ⟨st, rfl, hpass⟩
  | false =>
  cases b' with
  | true => exact ⟨st, rfl, hpass⟩
  | false =>
  simp only [Bool.false_eq_true, if_false]
  split
  · exact ⟨st, rfl, hpass⟩
  · rename_i ring hring
    obtain ⟨hring, hsame⟩ := Option.filter_eq_some_iff.mp hring
    have hsame := of_decide_eq_true hsame
    have hlt : candidate.first.position.ringIndex < positions.length :=
      hpositions ▸ (List.getElem?_eq_some_iff.mp hring).1
    obtain ⟨r, hr, hroot, hord, hroots⟩ :=
      mergedRepresentative_eq hwf.ordered (hwf.table.symm ▸ hfirst)
    have hsecond' : candidate.second.pathIndex <
        (st.mergedWith.set candidate.first.pathIndex r).length := by
      simpa [hwf.table] using hsecond
    obtain ⟨s, hs, hroot', hord', hroots'⟩ := mergedRepresentative_eq hord hsecond'
    have hpass' : LinkStep st candidate { st with mergedWith :=
        (st.mergedWith.set candidate.first.pathIndex r).set candidate.second.pathIndex s } :=
      .pass hord' (hroots.trans hroots')
    have hrlt : r < st.active.length := by
      rw [hwf.active, ← hwf.table]
      exact hroot.root_lt
    have hslt : s < st.active.length := by
      rw [hwf.active, ← hwf.table]
      exact ((hroots.2 _ _).mp hroot').root_lt
    simp only [hr, hs, Option.bind_some, List.getElem?_eq_getElem hrlt,
      List.getElem?_eq_getElem hslt]
    split
    · exact ⟨_, rfl, hpass'⟩
    · rename_i hne
      split
      · rename_i first second hactive hactive'
        split
        · apply splicePaths_step hord' (hroots.trans hroots')
          · exact {
              root_first := hroot
              root_second := (hroots.2 _ _).mp hroot'
              ne := hne
              first := (List.getElem?_eq_getElem hrlt).trans (congrArg some hactive)
              second := (List.getElem?_eq_getElem hslt).trans (congrArg some hactive') }
          · exact hb
          · exact hb'
          · exact hlt
          · exact hsame ▸ hlt
        · exact ⟨_, rfl, hpass'⟩
      · exact ⟨_, rfl, hpass'⟩

end Step

/-! ### Attributes -/

theorem SameAttributes.refl (path : ExtrusionPath3D F) : SameAttributes path path :=
  ⟨rfl, rfl, rfl⟩

theorem SameAttributes.symm {other : ExtrusionPath3D F} (h : SameAttributes path other) :
    SameAttributes other path :=
  ⟨h.1.symm, h.2.1.symm, h.2.2.symm⟩

theorem SameAttributes.trans {other third : ExtrusionPath3D F} (h : SameAttributes path other)
    (h' : SameAttributes other third) : SameAttributes path third :=
  ⟨h.1.trans h'.1, h.2.1.trans h'.2.1, h.2.2.trans h'.2.2⟩

theorem Turned.sameAttributes {turned : ExtrusionPath3D F} (h : Turned path turned) :
    SameAttributes path turned := by
  rcases h with rfl | rfl
  · exact .refl _
  · exact ⟨rfl, rfl, rfl⟩

theorem Extended.sameAttributes {extended : ExtrusionPath3D F} (h : Extended path extended) :
    SameAttributes path extended := by
  obtain ⟨turned, lead, trail, hturned, rfl⟩ := h
  exact hturned.sameAttributes.trans ⟨rfl, rfl, rfl⟩

/-! ### Chains under a step -/

section Chains

variable {paths : List (ExtrusionPath3D F)} {chain chain' : List Member}
  {path path' : ExtrusionPath3D F}

/-- Two chains with the same members. -/
def SameMembers (chain chain' : List Member) : Prop :=
  ∀ index, chain'.countP (fun member => member.index = index) =
    chain.countP fun member => member.index = index

theorem run_flip (member : Member) : member.flip.run paths = (member.run paths).reverse := by
  cases member with
  | mk index reversed => cases reversed <;> simp [Member.flip, Member.run]

theorem Carries.congr (h : Carries paths chain path)
    (hpoints : Strung (chain.map (Member.run paths)) path'.points)
    (hattributes : SameAttributes path path') : Carries paths chain path' where
  strung := hpoints
  attributes member hmember := by
    obtain ⟨input, hinput, hsame⟩ := h.attributes member hmember
    exact ⟨input, hinput, hsame.trans hattributes⟩

theorem Carries.turned (h : Carries paths chain path) (hturned : Turned path path') :
    ∃ chain', Carries paths chain' path' ∧ SameMembers chain chain' := by
  rcases hturned with rfl | rfl
  · exact ⟨chain, h, fun _ => rfl⟩
  · refine ⟨(chain.map Member.flip).reverse, ⟨?_, ?_⟩, fun index => ?_⟩
    · have hruns : ((chain.map Member.flip).reverse.map (Member.run paths)) =
          ((chain.map (Member.run paths)).map List.reverse).reverse := by
        rw [List.map_reverse, List.map_map, List.map_map]
        congr 2
        funext member
        exact run_flip member
      rw [hruns]
      exact h.strung.reverse
    · intro member hmember
      obtain ⟨before, hbefore, rfl⟩ := List.mem_map.mp (List.mem_reverse.mp hmember)
      exact h.attributes before hbefore
    · rw [List.countP_reverse, List.countP_map]
      rfl

theorem Carries.extended (h : Carries paths chain path) (hextended : Extended path path') :
    ∃ chain', Carries paths chain' path' ∧ SameMembers chain chain' := by
  obtain ⟨turned, lead, trail, hturned, rfl⟩ := hextended
  obtain ⟨chain', hcarries, hmembers⟩ := h.turned hturned
  refine ⟨chain', hcarries.congr ?_ ⟨rfl, rfl, rfl⟩, hmembers⟩
  exact (hcarries.strung.prepend lead).extend trail

theorem Carries.join (h : Carries paths chain path) (h' : Carries paths chain' path')
    (hattributes : SameAttributes path path') (connector : List (Point3WithWidth F)) :
    Carries paths (chain ++ chain')
      { path with points := path.points ++ connector ++ path'.points } where
  strung := by
    rw [List.map_append]
    exact (h.strung.extend connector).concat h'.strung
  attributes member hmember := by
    rcases List.mem_append.mp hmember with hmember | hmember
    · exact h.attributes member hmember
    · obtain ⟨input, hinput, hsame⟩ := h'.attributes member hmember
      exact ⟨input, hinput, hsame.trans hattributes.symm⟩

/-- The chain of a slot; an emptied slot has none. -/
def SlotCarries (paths : List (ExtrusionPath3D F)) (chain : List Member) :
    Option (ExtrusionPath3D F) → Prop
  | none => chain = []
  | some path => Carries paths chain path

theorem occurrences_set {chains : List (List Member)} {i : Nat} (h : chains[i]? = some chain)
    (new : List Member) (index : Nat) :
    occurrences index (chains.set i new) + chain.countP (fun member => member.index = index) =
      occurrences index chains + new.countP fun member => member.index = index :=
  List.countP_flatten_set h new

variable {chains : List (List Member)} {active : List (Option (ExtrusionPath3D F))}

theorem slots_fill (h : List.Forall₂ (SlotCarries paths) chains active)
    (hcarries : Carries paths chain path) (i : Nat) :
    List.Forall₂ (SlotCarries paths) (chains.set i chain) (active.set i (some path)) := by
  have hslot : SlotCarries paths chain (some path) := hcarries
  exact h.set hslot i

theorem slots_empty (h : List.Forall₂ (SlotCarries paths) chains active) (i : Nat) :
    List.Forall₂ (SlotCarries paths) (chains.set i []) (active.set i none) := by
  have hslot : SlotCarries paths [] none := rfl
  exact h.set hslot i

theorem exists_chain (h : List.Forall₂ (SlotCarries paths) chains active) {r : Nat}
    (hr : active[r]? = some (some path)) :
    ∃ chain, chains[r]? = some chain ∧ Carries paths chain path := by
  have hflip : List.Forall₂ (fun slot chain => SlotCarries paths chain slot) active chains :=
    .flip h
  exact hflip.getElem?_some hr

end Chains

/-! ### What the loop keeps -/

/-- The candidate is between two of the paths the loop starts with, and these have the
same attributes. -/
def Compatible (start : List (Option (ExtrusionPath3D F))) (candidate : Candidate F) : Prop :=
  ∃ first second, start[candidate.first.pathIndex]? = some (some first) ∧
    start[candidate.second.pathIndex]? = some (some second) ∧ SameAttributes first second

/-- The root of every path holds a path with its attributes. -/
def Alive (start : List (Option (ExtrusionPath3D F))) (st : LinkState F) : Prop :=
  ∀ {i r : Nat} {input : ExtrusionPath3D F}, start[i]? = some (some input) →
    Root st.mergedWith i r → ∃ path, st.active[r]? = some (some path) ∧ SameAttributes input path

/-- The slots hold chains that have every path once. -/
def Chained (paths : List (ExtrusionPath3D F)) (st : LinkState F) : Prop :=
  ∃ chains, List.Forall₂ (SlotCarries paths) chains st.active ∧
    ∀ index path, paths[index]? = some path → 2 ≤ path.points.length →
      occurrences index chains = 1

/-- The endpoints that the joins name are marked, and all different. -/
def NamesOnce (st : LinkState F) : Prop :=
  (∀ join ∈ st.joins, endpointConsumed st.consumed join.first = some true ∧
    endpointConsumed st.consumed join.second = some true) ∧ (namedEndpoints st.joins).Nodup

/-- Paths that the joins connect have the same root, and no join closes a loop. -/
def Forest (st : LinkState F) : Prop :=
  (∀ {i j : Nat}, Connected st.joins i j → SameTree st.mergedWith i j) ∧ ClosesNoLoop st.joins

section Steps

variable {paths : List (ExtrusionPath3D F)} {start : List (Option (ExtrusionPath3D F))}
  {st st' : LinkState F} {candidate : Candidate F} {n r s : Nat}
  {first second : ExtrusionPath3D F}

theorem WellFormed.step (h : WellFormed n st) (hstep : LinkStep st candidate st') :
    WellFormed n st' := by
  cases hstep with
  | pass hord hroots => exact ⟨h.active, h.consumed, hroots.1.trans h.table, hord⟩
  | hold hord hroots _ hmarked _ _ =>
    exact ⟨by simp [h.active], hmarked.length.trans h.consumed, hroots.1.trans h.table, hord⟩
  | join hord hroots _ hmarked _ _ =>
    refine ⟨by simp [h.active], hmarked.length.trans h.consumed, by simp [hroots.1, h.table], ?_⟩
    exact hord.set (le_trans (min_le_left _ _) (le_max_left _ _))

/-- The paths that a candidate leads to have the same attributes. -/
theorem Located.sameAttributes (h : Located st candidate r s first second)
    (hcompatible : Compatible start candidate) (halive : Alive start st) :
    SameAttributes first second := by
  obtain ⟨input, input', hinput, hinput', hsame⟩ := hcompatible
  obtain ⟨path, hpath, hfirst⟩ := halive hinput h.root_first
  obtain ⟨path', hpath', hsecond⟩ := halive hinput' h.root_second
  cases h.first.symm.trans hpath
  cases h.second.symm.trans hpath'
  exact (hfirst.symm.trans hsame).trans hsecond

variable {table : List Nat} {first' second' : ExtrusionPath3D F}

/-- The higher of the two slots is linked to the lower one; both are roots. -/
theorem Located.linked (h : Located st candidate r s first second)
    (hroots : SameRoots st.mergedWith table) :
    table[max r s]? = some (max r s) ∧ table[min r s]? = some (min r s) ∧
      max r s ≠ min r s := by
  have hr := ((hroots.2 _ _).mpr h.root_first).isRoot
  have hs := ((hroots.2 _ _).mpr h.root_second).isRoot
  have hne := h.ne
  refine ⟨?_, ?_, by omega⟩
  · rcases max_choice r s with hmax | hmax <;> rw [hmax] <;> assumption
  · rcases min_choice r s with hmin | hmin <;> rw [hmin] <;> assumption

theorem Alive.hold {consumed : List (Bool × Bool)} (halive : Alive start st)
    (hroots : SameRoots st.mergedWith table) (h : Located st candidate r s first second)
    (hfirst : SameAttributes first first') (hsecond : SameAttributes second second') :
    Alive start { st with
      active := (st.active.set r (some first')).set s (some second')
      consumed
      mergedWith := table } := by
  intro i t input hinput hroot
  obtain ⟨path, hpath, hsame⟩ := halive hinput ((hroots.2 _ _).mp hroot)
  by_cases hs : s = t
  · subst hs
    cases h.second.symm.trans hpath
    refine ⟨second', List.getElem?_set_self ?_, hsame.trans hsecond⟩
    simpa using (List.getElem?_eq_some_iff.mp hpath).1
  · by_cases hr : r = t
    · subst hr
      cases h.first.symm.trans hpath
      refine ⟨first', ?_, hsame.trans hfirst⟩
      rw [List.getElem?_set_ne hs]
      exact List.getElem?_set_self (List.getElem?_eq_some_iff.mp hpath).1
    · refine ⟨path, ?_, hsame⟩
      rw [List.getElem?_set_ne hs, List.getElem?_set_ne hr]
      exact hpath

theorem Alive.join {consumed : List (Bool × Bool)} {joined : ExtrusionPath3D F}
    (halive : Alive start st) (hord : Ordered table) (hroots : SameRoots st.mergedWith table)
    (h : Located st candidate r s first second) (hfirst : SameAttributes first joined)
    (hsecond : SameAttributes second joined) :
    Alive start {
      active := ((st.active.set r none).set s none).set (min r s) (some joined)
      consumed
      mergedWith := table.set (max r s) (min r s)
      joins := st.joins ++ [candidate] } := by
  intro i t input hinput hroot
  obtain ⟨hupper, hlower, hne⟩ := h.linked hroots
  obtain ⟨t', ht', rfl⟩ := exists_root_of_link hord hupper hlower hne hroot
  obtain ⟨path, hpath, hsame⟩ := halive hinput ((hroots.2 _ _).mp ht')
  have hlt : min r s < ((st.active.set r none).set s none).length := by
    have := (List.getElem?_eq_some_iff.mp h.first).1
    simp only [List.length_set]
    omega
  -- The two trees that were linked now have the joined path at their root.
  by_cases htaken : t' = r ∨ t' = s
  · have hlinked : (if t' = max r s then min r s else t') = min r s := by
      split <;> omega
    rw [hlinked]
    refine ⟨joined, List.getElem?_set_self hlt, ?_⟩
    rcases htaken with rfl | rfl
    · cases h.first.symm.trans hpath
      exact hsame.trans hfirst
    · cases h.second.symm.trans hpath
      exact hsame.trans hsecond
  · have hother : (if t' = max r s then min r s else t') = t' := by
      split <;> omega
    have hlower' : min r s ≠ t' := by omega
    have hs' : s ≠ t' := by omega
    have hr' : r ≠ t' := by omega
    rw [hother]
    refine ⟨path, ?_, hsame⟩
    rw [List.getElem?_set_ne hlower', List.getElem?_set_ne hs', List.getElem?_set_ne hr']
    exact hpath

theorem Alive.step (halive : Alive start st) (hcompatible : Compatible start candidate)
    (hstep : LinkStep st candidate st') : Alive start st' := by
  cases hstep with
  | pass _ hroots => exact fun hinput hroot => halive hinput ((hroots.2 _ _).mp hroot)
  | hold _ hroots hlocated _ hfirst hsecond =>
    exact halive.hold hroots hlocated hfirst.sameAttributes hsecond.sameAttributes
  | join hord hroots hlocated _ hfirst hsecond =>
    have hsame := hlocated.sameAttributes hcompatible halive
    apply halive.join hord hroots hlocated
    · exact hfirst.sameAttributes.trans ⟨rfl, rfl, rfl⟩
    · exact hsame.symm.trans (hfirst.sameAttributes.trans ⟨rfl, rfl, rfl⟩)

theorem Chained.hold (hchained : Chained paths st) (h : Located st candidate r s first second)
    (hfirst : Extended first first') (hsecond : Extended second second')
    (hactive : st'.active = (st.active.set r (some first')).set s (some second')) :
    Chained paths st' := by
  obtain ⟨chains, hslots, honce⟩ := hchained
  obtain ⟨chain, hchain, hcarries⟩ := exists_chain hslots h.first
  obtain ⟨chain₂, hchain₂, hcarries₂⟩ := exists_chain hslots h.second
  obtain ⟨chain', hcarries', hmembers⟩ := hcarries.extended hfirst
  obtain ⟨chain₂', hcarries₂', hmembers₂⟩ := hcarries₂.extended hsecond
  refine ⟨(chains.set r chain').set s chain₂', ?_, fun index path hpath hlength => ?_⟩
  · rw [hactive]
    apply slots_fill _ hcarries₂'
    exact slots_fill hslots hcarries' r
  · have hsecondSlot : (chains.set r chain')[s]? = some chain₂ :=
      (List.getElem?_set_ne h.ne).trans hchain₂
    have hset := occurrences_set hchain chain' index
    have hset₂ := occurrences_set hsecondSlot chain₂' index
    have := hmembers index
    have := hmembers₂ index
    have := honce index path hpath hlength
    omega

theorem Chained.join {connector : List (Point3WithWidth F)} (hchained : Chained paths st)
    (h : Located st candidate r s first second) (hfirst : Turned first first')
    (hsecond : Turned second second') (hsame : SameAttributes first second)
    (hactive : st'.active = ((st.active.set r none).set s none).set (min r s)
      (some { first' with points := first'.points ++ connector ++ second'.points })) :
    Chained paths st' := by
  obtain ⟨chains, hslots, honce⟩ := hchained
  obtain ⟨chain, hchain, hcarries⟩ := exists_chain hslots h.first
  obtain ⟨chain₂, hchain₂, hcarries₂⟩ := exists_chain hslots h.second
  obtain ⟨chain', hcarries', hmembers⟩ := hcarries.turned hfirst
  obtain ⟨chain₂', hcarries₂', hmembers₂⟩ := hcarries₂.turned hsecond
  have hsame' : SameAttributes first' second' :=
    (hfirst.sameAttributes.symm.trans hsame).trans hsecond.sameAttributes
  refine ⟨((chains.set r []).set s []).set (min r s) (chain' ++ chain₂'), ?_,
    fun index path hpath hlength => ?_⟩
  · rw [hactive]
    apply slots_fill _ (hcarries'.join hcarries₂' hsame' connector)
    apply slots_empty
    exact slots_empty hslots r
  · have hsecondSlot : (chains.set r [])[s]? = some chain₂ :=
      (List.getElem?_set_ne h.ne).trans hchain₂
    have hlower : ((chains.set r []).set s [])[min r s]? = some [] := by
      have hr := (List.getElem?_eq_some_iff.mp hchain).1
      have hs := (List.getElem?_eq_some_iff.mp hchain₂).1
      rcases min_choice r s with hmin | hmin
      · rw [hmin, List.getElem?_set_ne h.ne.symm]
        exact List.getElem?_set_self hr
      · rw [hmin]
        exact List.getElem?_set_self (by simpa using hs)
    have hset := occurrences_set hchain [] index
    have hset₂ := occurrences_set hsecondSlot [] index
    have hset₃ := occurrences_set hlower (chain' ++ chain₂') index
    rw [List.countP_append] at hset₃
    simp only [List.countP_nil] at hset hset₂ hset₃
    have := hmembers index
    have := hmembers₂ index
    have := honce index path hpath hlength
    omega

theorem Chained.step (hchained : Chained paths st) (halive : Alive start st)
    (hcompatible : Compatible start candidate) (hstep : LinkStep st candidate st') :
    Chained paths st' := by
  cases hstep with
  | pass _ _ => exact hchained
  | hold _ _ hlocated _ hfirst hsecond => exact hchained.hold hlocated hfirst hsecond rfl
  | join _ _ hlocated _ hfirst hsecond =>
    have hsame := hlocated.sameAttributes hcompatible halive
    exact hchained.join hlocated hfirst hsecond hsame rfl

theorem endpointConsumed_congr {consumed : List (Bool × Bool)} {endpoint other : Endpoint F}
    (h : endpoint.key = other.key) :
    endpointConsumed consumed endpoint = endpointConsumed consumed other := by
  obtain ⟨hindex, hside⟩ := Prod.mk.inj h
  rw [endpointConsumed, endpointConsumed, hindex, hside]

theorem NamesOnce.consumed (h : NamesOnce st) {endpoint : Endpoint F}
    (hmem : endpoint.key ∈ namedEndpoints st.joins) :
    endpointConsumed st.consumed endpoint = some true := by
  obtain ⟨join, hjoin, hkey⟩ := List.mem_flatMap.mp hmem
  obtain ⟨hfirst, hsecond⟩ := h.1 join hjoin
  rcases List.mem_pair.mp hkey with hkey | hkey
  · rw [endpointConsumed_congr hkey]
    exact hfirst
  · rw [endpointConsumed_congr hkey]
    exact hsecond

theorem NamesOnce.join {active : List (Option (ExtrusionPath3D F))} {consumed : List (Bool × Bool)}
    (h : NamesOnce st) (hlocated : Located st candidate r s first second)
    (hmarked : Marked st.consumed candidate consumed) :
    NamesOnce { active, consumed, mergedWith := table, joins := st.joins ++ [candidate] } := by
  have hunnamed : ∀ endpoint : Endpoint F, endpointConsumed st.consumed endpoint = some false →
      endpoint.key ∉ namedEndpoints st.joins := by
    intro endpoint hfree hmem
    cases hfree.symm.trans (h.consumed hmem)
  have hdistinct : candidate.first.key ≠ candidate.second.key := by
    intro hkey
    have hroot := hlocated.root_second
    rw [← (Prod.mk.inj hkey).1] at hroot
    exact hlocated.ne (hlocated.root_first.unique hroot)
  constructor
  · intro join hjoin
    rcases List.mem_append.mp hjoin with hjoin | hjoin
    · obtain ⟨hfirst, hsecond⟩ := h.1 join hjoin
      exact ⟨hmarked.keeps _ hfirst, hmarked.keeps _ hsecond⟩
    · cases List.mem_singleton.mp hjoin
      exact ⟨hmarked.first, hmarked.second⟩
  · have hnames : namedEndpoints (st.joins ++ [candidate]) =
        namedEndpoints st.joins ++ [candidate.first.key, candidate.second.key] := by
      simp [namedEndpoints]
    rw [hnames]
    refine List.Nodup.append h.2 (by simpa using hdistinct) ?_
    intro key hkey hnew
    rcases List.mem_pair.mp hnew with rfl | rfl
    · exact hunnamed _ hmarked.free_first hkey
    · exact hunnamed _ hmarked.free_second hkey

theorem NamesOnce.step (h : NamesOnce st) (hstep : LinkStep st candidate st') :
    NamesOnce st' := by
  cases hstep with
  | pass _ _ => exact h
  | hold _ _ _ hmarked _ _ =>
    refine ⟨fun join hjoin => ?_, h.2⟩
    obtain ⟨hfirst, hsecond⟩ := h.1 join hjoin
    exact ⟨hmarked.keeps _ hfirst, hmarked.keeps _ hsecond⟩
  | join _ _ hlocated hmarked _ _ => exact h.join hlocated hmarked

theorem Forest.join {active : List (Option (ExtrusionPath3D F))} {consumed : List (Bool × Bool)}
    (h : Forest st) (hord : Ordered table) (hroots : SameRoots st.mergedWith table)
    (hlocated : Located st candidate r s first second) :
    Forest {
      active
      consumed
      mergedWith := table.set (max r s) (min r s)
      joins := st.joins ++ [candidate] } := by
  obtain ⟨hupper, hlower, hne⟩ := hlocated.linked hroots
  have hfirst := (hroots.2 _ _).mpr hlocated.root_first
  have hsecond := (hroots.2 _ _).mpr hlocated.root_second
  constructor
  · intro i j hconnected
    induction hconnected with
    | rel i j hjoin =>
      obtain ⟨join, hmem, rfl, rfl⟩ := hjoin
      rcases List.mem_append.mp hmem with hmem | hmem
      · have hold := h.1 (.rel _ _ ⟨join, hmem, rfl, rfl⟩)
        exact (hroots.sameTree hold).link hord hupper hlower hne
      · cases List.mem_singleton.mp hmem
        rcases le_total r s with hle | hle
        · simp only [max_eq_right hle, min_eq_left hle] at hupper hlower hne ⊢
          exact fun t => (sameTree_link hupper hlower hne hsecond hfirst t).symm
        · simp only [max_eq_left hle, min_eq_right hle] at hupper hlower hne ⊢
          exact sameTree_link hupper hlower hne hfirst hsecond
    | refl i => exact fun _ => Iff.rfl
    | symm i j _ ih => exact fun t => (ih t).symm
    | trans i j k _ _ ih ih' => exact fun t => (ih t).trans (ih' t)
  · intro earlier join later hsplit
    rcases List.eq_nil_or_concat later with rfl | ⟨later, last, rfl⟩
    · -- The new join: its two paths had different roots.
      obtain ⟨rfl, hlast⟩ := List.append_inj' hsplit rfl
      cases hlast
      intro hconnected
      have hroot := (h.1 hconnected r).mp hlocated.root_first
      exact hlocated.ne (hroot.unique hlocated.root_second)
    · have hsplit' : st.joins ++ [candidate] = (earlier ++ join :: later) ++ [last] := by
        simpa using hsplit
      obtain ⟨hearlier, _⟩ := List.append_inj' hsplit' rfl
      exact h.2 earlier join later hearlier

theorem Forest.step (h : Forest st) (hstep : LinkStep st candidate st') : Forest st' := by
  cases hstep with
  | pass _ hroots => exact ⟨fun hconnected => hroots.sameTree (h.1 hconnected), h.2⟩
  | hold _ hroots _ _ _ _ => exact ⟨fun hconnected => hroots.sameTree (h.1 hconnected), h.2⟩
  | join hord hroots hlocated _ _ _ => exact h.join hord hroots hlocated

end Steps

/-- What holds before every candidate. -/
structure Linked (paths : List (ExtrusionPath3D F)) (start : List (Option (ExtrusionPath3D F)))
    (st : LinkState F) : Prop where
  wellFormed : WellFormed start.length st
  alive : Alive start st
  chained : Chained paths st
  namesOnce : NamesOnce st
  forest : Forest st

theorem Linked.step {paths : List (ExtrusionPath3D F)}
    {start : List (Option (ExtrusionPath3D F))} {st st' : LinkState F} {candidate : Candidate F}
    (h : Linked paths start st) (hcompatible : Compatible start candidate)
    (hstep : LinkStep st candidate st') : Linked paths start st' where
  wellFormed := h.wellFormed.step hstep
  alive := Alive.step h.alive hcompatible hstep
  chained := h.chained.step h.alive hcompatible hstep
  namesOnce := h.namesOnce.step hstep
  forest := h.forest.step hstep

/-! ### The start of the loop -/

section Start

variable {paths : List (ExtrusionPath3D F)}

/-- One chain for each of the paths. -/
def singletons (entries : List (ExtrusionPath3D F × Nat)) : List (List Member) :=
  entries.map fun entry => [{ index := entry.2, reversed := false }]

theorem carries_singleton {entry : ExtrusionPath3D F × Nat} (h : entry ∈ paths.zipIdx) :
    Carries paths [{ index := entry.2, reversed := false }] entry.1 := by
  have hentry : paths[entry.2]? = some entry.1 := List.mk_mem_zipIdx_iff_getElem?.mp h
  constructor
  · have hrun : Member.run paths { index := entry.2, reversed := false } = entry.1.points := by
      simp [Member.run, hentry]
    rw [List.map_singleton, hrun]
    exact Strung.single _
  · intro member hmember
    cases List.mem_singleton.mp hmember
    exact ⟨entry.1, hentry, .refl _⟩

/-- A path that is kept at the start is in one chain. -/
theorem occurrences_singletons {entries : List (ExtrusionPath3D F × Nat)}
    (h : entries.Sublist paths.zipIdx) {path : ExtrusionPath3D F} {index : Nat}
    (hmem : (path, index) ∈ entries) : occurrences index (singletons entries) = 1 := by
  have hnodup : (entries.map Prod.snd).Nodup := by
    apply List.Nodup.sublist (h.map Prod.snd)
    rw [List.zipIdx_map_snd]
    exact List.nodup_range'
  have hindex : index ∈ entries.map Prod.snd := List.mem_map_of_mem hmem
  have hflatten : (singletons entries).flatten =
      entries.map fun entry => { index := entry.2, reversed := false } := by
    rw [singletons, ← List.flatMap_def]
    exact List.flatMap_pure_eq_map _ entries
  have hcount : occurrences index (singletons entries) = (entries.map Prod.snd).count index := by
    rw [occurrences, hflatten, List.count_eq_countP, List.countP_map, List.countP_map]
    rfl
  rw [hcount]
  exact List.count_eq_one_of_mem hnodup hindex

/-- The paths that take part, each with its position among the inputs. -/
def activeEntries (paths : List (ExtrusionPath3D F)) : List (ExtrusionPath3D F × Nat) :=
  paths.zipIdx.filter fun entry => 2 ≤ entry.1.points.length

theorem activePaths_eq (paths : List (ExtrusionPath3D F)) :
    activePaths paths = (activeEntries paths).map fun entry => some entry.1 := by
  have hfilter : (paths.filter fun path => 2 ≤ path.points.length) =
      (activeEntries paths).map Prod.fst := by
    conv_lhs => rw [← List.zipIdx_map_fst 0 paths, List.filter_map]
    rfl
  rw [activePaths, hfilter, List.map_map]
  rfl

variable {st : LinkState F}

theorem chained_start (h : st.active = activePaths paths) : Chained paths st := by
  refine ⟨singletons (activeEntries paths), ?_, fun index path hpath hlength => ?_⟩
  · rw [h, activePaths_eq, singletons, List.forall₂_map_left_iff, List.forall₂_map_right_iff,
      List.forall₂_same]
    intro entry hentry
    exact carries_singleton (List.mem_of_mem_filter hentry)
  · have hmem : (path, index) ∈ activeEntries paths :=
      List.mem_filter.mpr ⟨List.mk_mem_zipIdx_iff_getElem?.mpr hpath, by simpa using hlength⟩
    exact occurrences_singletons List.filter_sublist hmem

theorem conserved_refl (paths : List (ExtrusionPath3D F)) : Conserved paths paths := by
  refine ⟨singletons paths.zipIdx, ?_, fun index path hpath _ => ?_⟩
  · conv_rhs => rw [← List.zipIdx_map_fst 0 paths]
    rw [singletons, List.forall₂_map_left_iff, List.forall₂_map_right_iff, List.forall₂_same]
    exact fun entry hentry => carries_singleton hentry
  · have hmem := List.mk_mem_zipIdx_iff_getElem?.mpr hpath
    exact occurrences_singletons (List.Sublist.refl _) hmem

theorem exists_chains_of_slots {chains : List (List Member)}
    {active : List (Option (ExtrusionPath3D F))}
    (h : List.Forall₂ (SlotCarries paths) chains active) :
    ∃ chains', List.Forall₂ (Carries paths) chains' (active.filterMap id) ∧
      chains'.flatten = chains.flatten := by
  induction h with
  | nil => exact ⟨[], .nil, rfl⟩
  | @cons chain slot _ _ hslot _ ih =>
    obtain ⟨chains', hcarries, hflatten⟩ := ih
    cases slot with
    | none =>
      cases hslot
      exact ⟨chains', hcarries, hflatten⟩
    | some path => exact ⟨chain :: chains', .cons hslot hcarries, by simp [hflatten]⟩

theorem Chained.conserved (h : Chained paths st) : Conserved paths (st.active.filterMap id) := by
  obtain ⟨chains, hslots, honce⟩ := h
  obtain ⟨chains', hcarries, hflatten⟩ := exists_chains_of_slots hslots
  refine ⟨chains', hcarries, fun index path hpath hlength => ?_⟩
  rw [occurrences, hflatten]
  exact honce index path hpath hlength

theorem linked_start {start : List (Option (ExtrusionPath3D F))}
    (hstart : start = activePaths paths)
    (hst : st = {
      active := start
      consumed := List.replicate start.length (false, false)
      mergedWith := List.range start.length }) : Linked paths start st := by
  subst hst
  refine ⟨⟨rfl, by simp, by simp, ordered_range _⟩, ?_, chained_start hstart, ?_, ?_⟩
  · intro i r input hinput hroot
    have hself := root_range (List.getElem?_eq_some_iff.mp hinput).1
    cases hroot.unique hself
    exact ⟨input, hinput, .refl _⟩
  · exact ⟨by simp, by simp [namedEndpoints]⟩
  · constructor
    · intro i j hconnected
      induction hconnected with
      | rel i j hjoin =>
        obtain ⟨join, hmem, _⟩ := hjoin
        cases hmem
      | refl i => exact fun _ => Iff.rfl
      | symm i j _ ih => exact fun t => (ih t).symm
      | trans i j k _ _ ih ih' => exact fun t => (ih t).trans (ih' t)
    · intro earlier join later hsplit
      simp at hsplit

end Start

/-! ### The candidates -/

section Candidates

variable [Field F] [LinearOrder F] {contour : Contour F} {rings : List (BoundaryRing F)}
  {active : List (Option (ExtrusionPath3D F))} {candidate : Candidate F}

theorem sameAttributes_of_compatiblePaths {i j : Nat} (h : compatiblePaths active i j = true) :
    ∃ first second, active[i]? = some (some first) ∧ active[j]? = some (some second) ∧
      SameAttributes first second := by
  unfold compatiblePaths at h
  split at h
  · rename_i first second hfirst hsecond
    simp only [Bool.and_eq_true, decide_eq_true_eq] at h
    exact ⟨first, second, hfirst, hsecond, h.1.1.1, h.1.1.2, h.1.2⟩
  · cases h

/-- A candidate is between two compatible paths. -/
theorem compatible_of_mem_candidates
    (h : candidate ∈ nearestPairCandidates contour rings active) : Compatible active candidate := by
  obtain ⟨endpoint, _, hbest⟩ := List.mem_filterMap.mp h
  obtain ⟨best, hnearest, rfl⟩ := Option.map_eq_some_iff.mp hbest
  obtain ⟨other, hother, hring⟩ := List.mem_filterMap.mp (mem_of_minBy hnearest)
  obtain ⟨ring, _, rfl⟩ := Option.map_eq_some_iff.mp hring
  have hfilter := (List.mem_filter.mp hother).2
  simp only [Bool.and_eq_true] at hfilter
  exact sameAttributes_of_compatiblePaths hfilter.1.2

end Candidates

/-! ### The whole run -/

section Run

variable [Field F] [LinearOrder F]

omit [Field F] in
theorem length_boundaryPositions (rings : List (BoundaryRing F))
    (candidates : List (Candidate F)) :
    (boundaryPositions rings candidates).length = rings.length := by
  simp [boundaryPositions]

/-- A candidate of the loop is taken in one step, which keeps everything. -/
theorem linked_candidate {contour : Contour F} {rings : List (BoundaryRing F)}
    {paths : List (ExtrusionPath3D F)} {order : Candidate F → Candidate F → Bool}
    {candidates : List (Candidate F)} {units maxUnits : F} {candidate : Candidate F}
    (hmem : candidate ∈ (nearestPairCandidates contour rings (activePaths paths)).mergeSort order)
    {st : LinkState F} (hst : Linked paths (activePaths paths) st) :
    ∃ st', linkCandidate contour rings units maxUnits (boundaryPositions rings candidates) st
        candidate = some st' ∧
      LinkStep st candidate st' ∧ Linked paths (activePaths paths) st' := by
  have hcompatible : Compatible (activePaths paths) candidate :=
    compatible_of_mem_candidates (List.mem_mergeSort.mp hmem)
  obtain ⟨first, second, hfirst, hsecond, _⟩ := id hcompatible
  obtain ⟨st', hst', hstep⟩ := linkCandidate_step hst.wellFormed
    (List.getElem?_eq_some_iff.mp hfirst).1 (List.getElem?_eq_some_iff.mp hsecond).1
    (length_boundaryPositions rings _)
  exact ⟨st', hst', hstep, hst.step hcompatible hstep⟩

/-- The loop over the candidates ends in a state that keeps everything. -/
theorem linkPaths_linked (contour : Contour F) (rings : List (BoundaryRing F))
    (anchor : AnchorParams F) (paths : List (ExtrusionPath3D F)) :
    ∃ st, linkPaths contour rings anchor paths = some st ∧
      Linked paths (activePaths paths) st := by
  apply List.foldlM_total (P := Linked paths (activePaths paths))
  · intro candidate hmem st hst
    obtain ⟨st', hst', _, hlinked⟩ := linked_candidate hmem hst
    exact ⟨st', hst', hlinked⟩
  · exact linked_start rfl rfl

/-- Linking conserves the infill: it ends, every input path of at least two points is
strung along one output path with its attributes, no endpoint is named by two joins, and
no join closes a loop. -/
theorem connect_infill_conserves (contour : Contour F) (rings : List (BoundaryRing F))
    (anchor : AnchorParams F) (paths : List (ExtrusionPath3D F)) :
    (∃ out, connectInfill contour rings anchor paths = some out ∧ Conserved paths out) ∧
      ∃ st, linkPaths contour rings anchor paths = some st ∧
        (namedEndpoints st.joins).Nodup ∧ ClosesNoLoop st.joins := by
  obtain ⟨st, hst, hlinked⟩ := linkPaths_linked contour rings anchor paths
  refine ⟨?_, st, hst, hlinked.namesOnce.2, hlinked.forest.2⟩
  unfold connectInfill
  split
  · exact ⟨paths, rfl, conserved_refl paths⟩
  · exact ⟨_, by rw [hst]; rfl, hlinked.chained.conserved⟩

end Run

end PinchNPrint.Linker
