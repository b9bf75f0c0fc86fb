/-
The painted leaves of a facet.

A string whose majority state is zero has no painted leaves, so what a facet reads as strokes
are its leaves; they are all there or none, as the vertices are when the facet is read.
-/

import PinchNPrint.Loader.Collector
import PinchNPrint.Loader.PaintWalks

namespace PinchNPrint.Loader

open List
open Layer (PaintValue)
open Region (IndexedTriangleSet PaintSemantic Point3)

/-! ### Majority states -/

/-- The last of the states with the highest count so far. -/
def moreFrequent (painted : List Nat) (best : Option Nat) (state : Nat) : Option Nat :=
  if best.all fun other => painted.count other ≤ painted.count state then some state else best

theorem foldl_moreFrequent_some (painted states : List Nat) (best : Nat) :
    ∃ other ∈ best :: states, states.foldl (moreFrequent painted) (some best) = some other := by
  induction states generalizing best with
  | nil => exact ⟨best, List.mem_cons_self, rfl⟩
  | cons state rest ih =>
    rw [List.foldl_cons, moreFrequent]
    split_ifs
    · obtain ⟨other, hother, h⟩ := ih state
      exact ⟨other, List.mem_cons_of_mem best hother, h⟩
    · obtain ⟨other, hother, h⟩ := ih best
      refine ⟨other, ?_, h⟩
      rcases List.mem_cons.mp hother with rfl | hother
      · exact List.mem_cons_self
      · exact List.mem_cons_of_mem best (List.mem_cons_of_mem state hother)

/-- The majority state is zero only where nothing is painted. -/
theorem filter_eq_nil_of_dominantPaintState (hashOrder : HashOrder) {states : List Nat}
    (h : dominantPaintState hashOrder.order states = 0) : states.filter (· ≠ 0) = [] := by
  have hstates : ∀ state ∈ hashOrder.order (states.filter (· ≠ 0)).dedup,
      state ∈ states.filter (· ≠ 0) := fun state hstate =>
    List.mem_dedup.mp ((hashOrder.perm _).mem_iff.mp hstate)
  have hempty : hashOrder.order (states.filter (· ≠ 0)).dedup = [] := by
    cases horder : hashOrder.order (states.filter (· ≠ 0)).dedup with
    | nil => rfl
    | cons first rest =>
      rw [horder] at hstates
      have hfold : dominantPaintState hashOrder.order states =
          (rest.foldl (moreFrequent (states.filter (· ≠ 0))) (some first)).getD 0 := by
        rw [dominantPaintState, horder]
        rfl
      obtain ⟨other, hother, hbest⟩ : ∃ other ∈ first :: rest,
          rest.foldl (moreFrequent (states.filter (· ≠ 0))) (some first) = some other :=
        foldl_moreFrequent_some _ rest first
      rw [hfold, hbest, Option.getD_some] at h
      have hpainted := List.of_mem_filter (hstates other hother)
      rw [h] at hpainted
      cases hpainted
  have hdedup : (states.filter (· ≠ 0)).dedup = [] := by
    apply List.eq_nil_of_length_eq_zero
    rw [← (hashOrder.perm _).length_eq, hempty]
    rfl
  exact (List.dedup_eq_nil _).mp hdedup

/-! ### Decoded strokes -/

section Decoded

variable {F : Type} [Field F] [DecidableEq F] {hex : String} {verts : Triangle F}
  {byteOffset : Nat}

/-- The strokes of a string that is not empty are the painted states of its guarded walk, less
those of degenerate triangles. -/
theorem strokes_of_decode (hne : hexBytes hex ≠ []) {strokes : List (Triangle F × Nat)}
    (h : decodePaintHexStrokes hex verts byteOffset = .ok strokes) :
    ∃ nibbles, parseNibbles (hexBytes hex) byteOffset = .ok nibbles ∧
      (guardedWalk nibbles).failure = none ∧
      ((guardedWalk nibbles).out.filter (· ≠ 0) = [] → strokes = []) := by
  cases hparse : parseNibbles (hexBytes hex) byteOffset with
  | error e =>
    simp only [decodePaintHexStrokes, if_neg hne, hparse] at h
    cases h
  | ok nibbles =>
    refine ⟨nibbles, rfl, (decodePaintHexStrokes_spec hparse hne).1.mp ⟨strokes, h⟩, ?_⟩
    intro hnothing
    have hout := (strokes_related nibbles verts).out
    rw [StrokesOf, hnothing, List.map_eq_nil_iff] at hout
    simp only [decodePaintHexStrokes, if_neg hne, hparse, Except.mapError, Except.ok_bind,
      hout, List.filter_nil] at h
    revert h
    generalize (walkTriangleSelectorStrokes nibbles MAX_LEVELS verts
      { pos := 0, out := [] }).failure = failure
    intro h
    cases failure with
    | none => exact (Except.ok.inj h).symm
    | some e =>
      cases e with
      | read e => cases h
      | split e =>
        cases e with
        | specialSide side => cases h
        | panic => cases h

/-- A string of the state zero has no strokes. -/
theorem strokes_eq_nil_of_state {hashOrder : HashOrder}
    (hstate : decodePaintHexState hashOrder.order hex byteOffset = .ok 0)
    {strokes : List (Triangle F × Nat)}
    (h : decodePaintHexStrokes hex verts byteOffset = .ok strokes) : strokes = [] := by
  by_cases hne : hexBytes hex = []
  · have hnothing : decodePaintHexStrokes hex verts byteOffset = .ok [] := if_pos hne
    rw [hnothing] at h
    exact (Except.ok.inj h).symm
  obtain ⟨nibbles, hnibbles, hfailure, hstrokes⟩ := strokes_of_decode hne h
  apply hstrokes
  rw [decodePaintHexState] at hstate
  split at hstate
  · next hbytes => exact absurd hbytes hne
  · next only hbytes =>
    obtain ⟨nibble, hnibble, hstate⟩ := Except.of_bind_eq_ok hstate
    split_ifs at hstate with hleaf
    have hzero : nibble = 0 := by
      have := Except.ok.inj hstate
      omega
    rw [hbytes, parseNibbles_single hnibble, hzero] at hnibbles
    cases hnibbles
    decide
  · next first second hbytes =>
    obtain ⟨n, hn, hstate⟩ := Except.of_bind_eq_ok hstate
    obtain ⟨m, hm, hstate⟩ := Except.of_bind_eq_ok hstate
    split_ifs at hstate with htwelve
    cases hstate
  · rw [hnibbles] at hstate
    have hbeyond := tree_beyond nibbles
    rw [Except.ok_bind] at hstate
    revert hfailure hstate hbeyond
    generalize walkTriangleSelectorTree nibbles MAX_LEVELS { pos := 0, out := [] } = tree
    generalize guardedWalk nibbles = guarded
    intro hfailure hstate hbeyond
    cases hbeyond with
    | going => exact filter_eq_nil_of_dominantPaintState hashOrder (Except.ok.inj hstate)
    | failed e => cases hfailure
    | stopped e hend => cases hfailure
    | past hmore hpos => cases hfailure

end Decoded

/-! ### The strokes of a facet -/

theorem Channel.slot_of_mapState {F : Type} {channel : Channel} {state : Nat}
    {target : PaintSemantic × PaintValue F} (h : channel.mapState state = some target)
    {stroke : PaintStroke F} (hsemantic : stroke.semantic = target.1) :
    (channel.slot stroke).channel = channel ∧ (channel.slot stroke).semantic = stroke.semantic := by
  cases channel with
  | fuzzySkin =>
    rw [mapState] at h
    split_ifs at h
    cases h
    exact ⟨rfl, hsemantic.symm⟩
  | supports =>
    rw [slot]
    rcases state with _ | _ | _ | state
    · cases h
    · cases h
      rw [if_pos hsemantic]
      exact ⟨rfl, hsemantic.symm⟩
    · cases h
      have hother : stroke.semantic ≠ .SupportEnforcer := by
        rw [hsemantic]
        exact PaintSemantic.noConfusion
      rw [if_neg hother]
      exact ⟨rfl, hsemantic.symm⟩
    · cases h
  | seam =>
    rw [slot]
    rcases state with _ | _ | _ | state
    · cases h
    · cases h
      rw [if_pos hsemantic]
      exact ⟨rfl, hsemantic.symm⟩
    · cases h
      have hother : stroke.semantic ≠ .Custom "seam_enforcer" := by
        rw [hsemantic]
        exact fun h => absurd (PaintSemantic.Custom.inj h) (by decide)
      rw [if_neg hother]
      exact ⟨rfl, hsemantic.symm⟩
    · cases h
  | color =>
    rw [mapState] at h
    split_ifs at h
    cases h
    exact ⟨rfl, hsemantic.symm⟩

namespace TriangleElement

section Leaves

variable {F : Type} [Field F] [DecidableEq F]

/-- The painted leaves of a channel, if its string is subdivided. -/
def leafStrokes (element : TriangleElement) (vertices : List (Point3 F)) (channel : Channel) :
    List (PaintStroke F) :=
  match element.paint channel, element.corners vertices with
  | some attr, some triVerts =>
      if attr.isSubdivided then
        ((decodeStrokesForChannel channel attr.hex triVerts element.byteOffset).toOption).getD []
      else []
  | _, _ => []

/-- The majority state of a channel, if it is painted and can be read. -/
def majority (element : TriangleElement) (channel : Channel) : Option Nat :=
  (element.readState channel).toOption.getD none

end Leaves

theorem majority_of_readState {element : TriangleElement} {channel : Channel} {state : Option Nat}
    (h : element.readState channel = .ok state) : element.majority channel = state := by
  rw [majority, h]
  rfl

/-- A state that is kept is valid, and not zero. -/
theorem readState_bounds {element : TriangleElement} {channel : Channel} {state : Nat}
    (h : element.readState channel = .ok (some state)) : 0 < state ∧ state ≤ channel.maxState := by
  rw [readState] at h
  cases hpaint : element.paint channel with
  | none =>
    rw [hpaint] at h
    cases h
  | some attr =>
    rw [hpaint] at h
    obtain ⟨decoded, hdecoded, h⟩ := Except.of_bind_eq_ok h
    split_ifs at h with hmax hzero
    · cases h
      exact ⟨hzero, not_lt.mp hmax⟩
    · cases h

section Leaves

variable {F : Type} [Field F] [DecidableEq F] {element : TriangleElement} {channel : Channel}
  {vertices : List (Point3 F)}

/-- Where a leaf comes from. -/
theorem exists_of_mem_leafStrokes {stroke : PaintStroke F}
    (h : stroke ∈ element.leafStrokes vertices channel) :
    ∃ attr triVerts pairs, element.paint channel = some attr ∧
      element.corners vertices = some triVerts ∧ attr.isSubdivided = true ∧
      decodePaintHexStrokes attr.hex triVerts element.byteOffset = .ok pairs ∧
      ∃ pair ∈ pairs, ∃ target, channel.mapState pair.2 = some target ∧
        { triangles := [pair.1], semantic := target.1, value := target.2 } = stroke := by
  rw [leafStrokes] at h
  cases hpaint : element.paint channel with
  | none =>
    rw [hpaint] at h
    cases h
  | some attr =>
    cases hcorners : element.corners vertices with
    | none =>
      rw [hpaint, hcorners] at h
      cases h
    | some triVerts =>
      rw [hpaint, hcorners] at h
      simp only at h
      split_ifs at h with hsub
      · rw [decodeStrokesForChannel] at h
        cases hpairs : decodePaintHexStrokes attr.hex triVerts element.byteOffset with
        | error e =>
          rw [hpairs] at h
          cases h
        | ok pairs =>
          rw [hpairs] at h
          obtain ⟨pair, hpair, hstroke⟩ := List.mem_filterMap.mp h
          obtain ⟨target, htarget, rfl⟩ := Option.map_eq_some_iff.mp hstroke
          exact ⟨attr, triVerts, pairs, rfl, rfl, hsub, hpairs, pair, hpair, target, htarget, rfl⟩
      · cases h

/-- A channel without a state has no leaves. -/
theorem leafStrokes_eq_nil (h : element.readState channel = .ok none) :
    element.leafStrokes vertices channel = [] := by
  rw [List.eq_nil_iff_forall_not_mem]
  intro stroke hstroke
  obtain ⟨attr, triVerts, pairs, hpaint, -, -, hpairs, pair, hpair, -⟩ :=
    exists_of_mem_leafStrokes hstroke
  rw [readState, hpaint] at h
  obtain ⟨decoded, hdecoded, h⟩ := Except.of_bind_eq_ok h
  split_ifs at h with hmax hzero
  · cases h
  rw [Nat.eq_zero_of_not_pos hzero] at hdecoded
  rw [strokes_eq_nil_of_state hdecoded hpairs] at hpair
  cases hpair

theorem readStrokes_eq {file : ModelFile} {state : Option Nat} {strokes : List (PaintStroke F)}
    (hstate : element.readState channel = .ok state)
    (h : element.readStrokes file vertices state channel = .ok strokes) :
    strokes = element.leafStrokes vertices channel := by
  cases state with
  | none =>
    rw [leafStrokes_eq_nil hstate]
    rw [readStrokes] at h
    cases hpaint : element.paint channel with
    | none =>
      rw [hpaint] at h
      exact (Except.ok.inj h).symm
    | some attr =>
      rw [hpaint] at h
      simpa using h.symm
  | some state =>
    have hzero : state ≠ 0 := (readState_bounds hstate).1.ne'
    rw [readStrokes] at h
    rw [leafStrokes]
    cases hpaint : element.paint channel with
    | none =>
      rw [hpaint] at h
      exact (Except.ok.inj h).symm
    | some attr =>
      rw [hpaint] at h
      simp only at h ⊢
      by_cases hsub : attr.isSubdivided = true
      · rw [if_pos ⟨hsub, by simpa using hzero⟩] at h
        cases hcorners : element.corners vertices with
        | none =>
          rw [hcorners] at h
          cases file with
          | main => cases h
          | sub => exact (Except.ok.inj h).symm
        | some triVerts =>
          rw [hcorners] at h
          simp only at h ⊢
          rw [if_pos hsub, h]
          rfl
      · rw [if_neg fun hboth => hsub hboth.1] at h
        cases element.corners vertices with
        | none => exact (Except.ok.inj h).symm
        | some triVerts =>
          simp only
          rw [if_neg hsub]
          exact (Except.ok.inj h).symm

variable {vertices' : List (Point3 F)}

/-- In the main model a facet with painted leaves has its vertices when it is read: the parser
would panic otherwise. -/
theorem corners_isSome_of_main {state : Option Nat} {strokes : List (PaintStroke F)}
    (hstate : element.readState channel = .ok state)
    (h : element.readStrokes .main vertices state channel = .ok strokes)
    (hleaves : element.leafStrokes vertices' channel ≠ []) :
    (element.corners vertices).isSome = true := by
  obtain ⟨stroke, hstroke⟩ := List.exists_mem_of_ne_nil _ hleaves
  obtain ⟨attr, triVerts, pairs, hpaint, -, hsub, -⟩ := exists_of_mem_leafStrokes hstroke
  cases state with
  | none => exact absurd (leafStrokes_eq_nil hstate) hleaves
  | some state =>
    have hzero : state ≠ 0 := (readState_bounds hstate).1.ne'
    rw [readStrokes, hpaint] at h
    simp only at h
    rw [if_pos ⟨hsub, by simpa using hzero⟩] at h
    cases hcorners : element.corners vertices with
    | none =>
      rw [hcorners] at h
      cases h
    | some found => rfl

omit [Field F] [DecidableEq F] in
/-- Vertices that are read later change nothing. -/
theorem corners_of_prefix (hearlier : vertices <+: vertices') {triVerts : Triangle F}
    (h : element.corners vertices = some triVerts) : element.corners vertices' = some triVerts := by
  have hkeep : ∀ {i : Nat} {p : Point3 F}, vertices[i]? = some p → vertices'[i]? = some p := by
    intro i p hp
    obtain ⟨rest, rfl⟩ := hearlier
    have hi : i < vertices.length := (List.getElem?_eq_some_iff.mp hp).1
    rw [List.getElem?_append_left hi, hp]
  rw [corners] at h
  obtain ⟨p0, h0, h⟩ := Option.bind_eq_some_iff.mp h
  obtain ⟨p1, h1, h⟩ := Option.bind_eq_some_iff.mp h
  obtain ⟨p2, h2, h⟩ := Option.bind_eq_some_iff.mp h
  rw [corners, hkeep h0, hkeep h1, hkeep h2]
  exact h

theorem leafStrokes_of_corners (hearlier : vertices <+: vertices')
    (h : (element.corners vertices).isSome = true) (channel : Channel) :
    element.leafStrokes vertices channel = element.leafStrokes vertices' channel := by
  obtain ⟨triVerts, htri⟩ := Option.isSome_iff_exists.mp h
  rw [leafStrokes, leafStrokes, htri, corners_of_prefix hearlier htri]

/-- When a facet is read it has all its painted leaves, or none. -/
theorem leafStrokes_sublist (hearlier : vertices <+: vertices') (channel : Channel) :
    element.leafStrokes vertices channel <+ element.leafStrokes vertices' channel := by
  cases hleaves : element.leafStrokes vertices channel with
  | nil => exact List.nil_sublist _
  | cons stroke rest =>
    have hstroke : stroke ∈ element.leafStrokes vertices channel := by
      rw [hleaves]
      exact List.mem_cons_self
    obtain ⟨attr, triVerts, pairs, -, hcorners, -⟩ := exists_of_mem_leafStrokes hstroke
    rw [← hleaves, leafStrokes_of_corners hearlier (by rw [hcorners]; rfl) channel]

theorem slot_of_mem_leafStrokes {stroke : PaintStroke F}
    (h : stroke ∈ element.leafStrokes vertices channel) :
    (channel.slot stroke).channel = channel ∧ (channel.slot stroke).semantic = stroke.semantic := by
  obtain ⟨attr, triVerts, pairs, -, -, -, -, pair, -, target, htarget, rfl⟩ :=
    exists_of_mem_leafStrokes h
  exact Channel.slot_of_mapState htarget rfl

end Leaves

end TriangleElement

end PinchNPrint.Loader
