/-
Where the two walks over a paint string agree.

Both descend through the same digits until one has a special side that its split does not
allow: there the walk for the strokes fails, and the walk for the states goes on. `guardedWalk`
fails where the walk for the strokes does, and collects what the walk for the states does; each
of the two is compared with it.
-/

import Mathlib.Data.List.Perm.Basic
import PinchNPrint.Loader.PaintTree

namespace PinchNPrint.Loader

/-! ### Descents side by side -/

section Related

variable {V W S T E E' : Type} {RV : V → W → Prop} {RS : S → T → Prop} {RE : E → E' → Prop}

/-- Two walks fail alike. -/
inductive SameFailure (RE : E → E' → Prop) :
    Option (WalkFailure E) → Option (WalkFailure E') → Prop
  | none : SameFailure RE none none
  | read (e : ReadError) : SameFailure RE (some (.read e)) (some (.read e))
  | split {e : E} {e' : E'} (h : RE e e') : SameFailure RE (some (.split e)) (some (.split e'))

/-- Two walks at the same place, with related results. -/
structure WalkRel (RS : S → T → Prop) (RE : E → E' → Prop) (walk : Walk S E) (walk' : Walk T E') :
    Prop where
  pos : walk.pos = walk'.pos
  out : RS walk.out walk'.out
  failure : SameFailure RE walk.failure walk'.failure

/-- Two splits into related targets, or related failures. -/
inductive SplitRel (RV : V → W → Prop) (RE : E → E' → Prop) :
    Except E (List V) → Except E' (List W) → Prop
  | ok {targets : List V} {targets' : List W} (h : List.Forall₂ RV targets targets') :
      SplitRel RV RE (.ok targets) (.ok targets')
  | error {e : E} {e' : E'} (h : RE e e') : SplitRel RV RE (.error e) (.error e')

/-- Two visitors that do related things. -/
structure VisitorRel (RV : V → W → Prop) (RS : S → T → Prop) (RE : E → E' → Prop)
    (visitor : Visitor V S E) (visitor' : Visitor W T E') : Prop where
  leaf : ∀ {v w x y}, RV v w → RS x y → ∀ state,
    RS (visitor.leaf v state x) (visitor'.leaf w state y)
  split : ∀ {v w}, RV v w → ∀ splitType side, splitType ≠ 0 → splitType < 4 →
    SplitRel RV RE (visitor.split v splitType side) (visitor'.split w splitType side)

variable {walk : Walk S E} {walk' : Walk T E'}

theorem WalkRel.andThen (h : WalkRel RS RE walk walk') {next : Walk S E → Walk S E}
    {next' : Walk T E' → Walk T E'} (hnext : WalkRel RS RE (next walk) (next' walk')) :
    WalkRel RS RE (walk.andThen next) (walk'.andThen next') := by
  have hfailure := h.failure
  rw [Walk.andThen, Walk.andThen]
  cases hwalk : walk.failure with
  | none =>
    rw [hwalk] at hfailure
    cases hwalk' : walk'.failure with
    | none => exact hnext
    | some e =>
      rw [hwalk'] at hfailure
      cases hfailure
  | some e =>
    rw [hwalk] at hfailure
    cases hwalk' : walk'.failure with
    | none =>
      rw [hwalk'] at hfailure
      cases hfailure
    | some e' => exact h

theorem WalkRel.foldl {targets : List V} {targets' : List W}
    (htargets : List.Forall₂ RV targets targets') {next : Walk S E → V → Walk S E}
    {next' : Walk T E' → W → Walk T E'}
    (hnext : ∀ {v w walk walk'}, RV v w → WalkRel RS RE walk walk' →
      WalkRel RS RE (next walk v) (next' walk' w)) (h : WalkRel RS RE walk walk') :
    WalkRel RS RE (targets.foldl next walk) (targets'.foldl next' walk') := by
  induction htargets generalizing walk walk' with
  | nil => exact h
  | cons hchild _ ih => exact ih (hnext hchild h)

theorem descend_related {visitor : Visitor V S E} {visitor' : Visitor W T E'}
    (h : VisitorRel RV RS RE visitor visitor') (nibbles : List Nat) (levels : Nat) {v : V} {w : W}
    (hv : RV v w) (hwalk : WalkRel RS RE walk walk') :
    WalkRel RS RE (descend visitor nibbles levels v walk)
      (descend visitor' nibbles levels w walk') := by
  induction levels generalizing v w walk walk' with
  | zero => exact ⟨hwalk.pos, hwalk.out, .read _⟩
  | succ levels ih =>
    rw [descend, descend, ← hwalk.pos]
    cases nibbles[walk.pos]? with
    | none => exact ⟨hwalk.pos, hwalk.out, .read _⟩
    | some nibble =>
      have hadvanced : WalkRel RS RE { walk with pos := walk.pos + 1 }
          { walk' with pos := walk.pos + 1 } := ⟨rfl, hwalk.out, hwalk.failure⟩
      simp only
      split_ifs with hleaf
      · rw [Walk.readLeaf, Walk.readLeaf]
        split_ifs
        · cases nibbles[walk.pos + 1]? with
          | none => exact ⟨rfl, hwalk.out, .read _⟩
          | some ext => exact ⟨rfl, h.leaf hv hwalk.out _, hwalk.failure⟩
        · exact ⟨rfl, h.leaf hv hwalk.out _, hwalk.failure⟩
      · have hsplit := h.split hv (nibble % 4) (nibble / 4) hleaf (Nat.mod_lt _ (by omega))
        revert hsplit
        generalize visitor.split v (nibble % 4) (nibble / 4) = result
        generalize visitor'.split w (nibble % 4) (nibble / 4) = result'
        intro hsplit
        cases hsplit with
        | error he => exact ⟨rfl, hwalk.out, .split he⟩
        | ok htargets =>
          exact WalkRel.foldl htargets (fun hchild hwalk => hwalk.andThen (ih hchild hwalk))
            hadvanced

end Related

/-! ### Special sides that do not fit -/

/-- A split whose special side it does not allow, with the levels below it. -/
structure Misfit where
  splitType : Nat
  side : Nat
  levels : Nat
deriving DecidableEq

/-- The special sides a split allows: one of the three, and for a split in four only the
first. -/
def sideFits (splitType side : Nat) : Bool :=
  if splitType = 3 then side = 0 else side < 3

/-- The visitor that collects states and fails at a side that does not fit; its targets are
the levels left below. -/
def guardedVisitor : Visitor Nat (List Nat) Misfit where
  leaf _ state states := states ++ [state]
  split levels splitType side :=
    if sideFits splitType side then .ok (List.replicate (splitType + 1) (levels - 1))
    else .error { splitType, side, levels }

/-- The walk for the states up to the first side that does not fit. -/
def guardedWalk (nibbles : List Nat) : Walk (List Nat) Misfit :=
  descend guardedVisitor nibbles MAX_LEVELS (MAX_LEVELS - 1) { pos := 0, out := [] }

/-- Nothing more can be read below a split: the digits or the levels are at their end. -/
def Misfit.AtEnd (nibbles : List Nat) (pos : Nat) (misfit : Misfit) : Prop :=
  misfit.levels = 0 ∨ nibbles.length ≤ pos

/-! ### The walk for the strokes -/

section Strokes

variable {F : Type} [Field F]

/-- The failure of a split, by the misfit. -/
def FailsAs (failure : SplitFailure) (misfit : Misfit) : Prop :=
  failure = if misfit.splitType = 3 then .specialSide misfit.side else .panic

/-- A triangle is split just when the special side fits. -/
theorem split_related (verts : Triangle F) (levels : Nat) {splitType : Nat} (side : Nat)
    (htype : splitType ≠ 0) (hlt : splitType < 4) :
    SplitRel (fun _ _ => True) FailsAs (strokeVisitor.split verts splitType side)
      (guardedVisitor.split levels splitType side) := by
  have htargets : ∀ {targets : List (Triangle F)} {n m : Nat}, targets.length = n →
      List.Forall₂ (fun _ _ => True) targets (List.replicate n m) := by
    intro targets n m hlength
    refine List.forall₂_iff_get.mpr ⟨by simp [hlength], fun _ _ _ => trivial⟩
  simp only [strokeVisitor, splitTriangleStrokes, guardedVisitor, sideFits]
  by_cases hfour : splitType = 3
  · subst hfour
    by_cases hside : side = 0
    · subst hside
      exact .ok (htargets rfl)
    · simp only [if_true, ne_eq, hside, not_false_eq_true, decide_false, Bool.false_eq_true,
        if_false]
      exact .error rfl
  · by_cases hside : side < 3
    · have hcorner : ∀ i < 3, ∃ v, verts.corner i = some v := by
        intro i hi
        rw [← Option.isSome_iff_exists, Triangle.corner]
        simpa using hi
      obtain ⟨vi, hi⟩ := hcorner side hside
      obtain ⟨vj, hj⟩ := hcorner ((side + 1) % 3) (Nat.mod_lt _ (by omega))
      obtain ⟨vk, hk⟩ := hcorner ((side + 2) % 3) (Nat.mod_lt _ (by omega))
      simp only [hfour, if_false, hi, hj, hk, hside, decide_true, if_true]
      by_cases hone : splitType = 1
      · subst hone
        exact .ok (htargets rfl)
      · have htwo : splitType = 2 := by omega
        subst htwo
        exact .ok (htargets rfl)
    · have hcorner : verts.corner side = none := by
        rw [Triangle.corner, List.getElem?_eq_none_iff]
        simpa using hside
      simp only [hfour, if_false, hcorner, hside, decide_false, Bool.false_eq_true]
      refine .error ?_
      rw [FailsAs, if_neg hfour]

/-- The strokes of a walk are the painted states. -/
def StrokesOf (strokes : List (Triangle F × Nat)) (states : List Nat) : Prop :=
  strokes.map Prod.snd = states.filter (· ≠ 0)

theorem strokeVisitor_related :
    VisitorRel (fun (_ : Triangle F) (_ : Nat) => True) StrokesOf FailsAs strokeVisitor
      guardedVisitor where
  leaf := by
    intro verts _ strokes states _ hstrokes state
    simp only [strokeVisitor, guardedVisitor]
    rw [StrokesOf] at hstrokes ⊢
    by_cases hzero : state = 0
    · simpa [hzero] using hstrokes
    · rw [if_pos hzero, List.map_append, hstrokes, List.filter_append]
      simp [hzero]
  split := fun _ _ side htype hlt => split_related _ _ side htype hlt

theorem strokes_related (nibbles : List Nat) (verts : Triangle F) :
    WalkRel StrokesOf FailsAs
      (walkTriangleSelectorStrokes nibbles MAX_LEVELS verts { pos := 0, out := [] })
      (guardedWalk nibbles) :=
  descend_related strokeVisitor_related nibbles MAX_LEVELS trivial ⟨rfl, rfl, .none⟩

end Strokes

/-! ### The walk for the states -/

/-- Where the walk for the states is, compared with the guarded one: at the same place unless
that failed at a misfit, and then past it, unless there is nothing more to read. -/
inductive Beyond (nibbles : List Nat) : Walk (List Nat) Misfit → Walk (List Nat) Empty → Prop
  | going {pos : Nat} {states : List Nat} :
      Beyond nibbles { pos, out := states } { pos, out := states }
  | failed {pos : Nat} {states : List Nat} (e : ReadError) :
      Beyond nibbles { pos, out := states, failure := some (.read e) }
        { pos, out := states, failure := some (.read e) }
  | stopped {pos : Nat} {states : List Nat} {misfit : Misfit} (e : ReadError)
      (hend : misfit.AtEnd nibbles pos) :
      Beyond nibbles { pos, out := states, failure := some (.split misfit) }
        { pos, out := states, failure := some (.read e) }
  | past {pos : Nat} {states : List Nat} {misfit : Misfit} {walk : Walk (List Nat) Empty}
      (hmore : ¬ misfit.AtEnd nibbles pos) (hpos : pos < walk.pos) :
      Beyond nibbles { pos, out := states, failure := some (.split misfit) } walk

section States

variable {V S E : Type}

theorem pos_le_children {next : V → Walk S E → Walk S E}
    (hnext : ∀ v walk, walk.pos ≤ (next v walk).pos) (targets : List V) (walk : Walk S E) :
    walk.pos ≤ (targets.foldl (fun walk child => walk.andThen (next child)) walk).pos := by
  induction targets generalizing walk with
  | nil => exact le_rfl
  | cons child rest ih =>
    refine le_trans ?_ (ih (walk.andThen (next child)))
    rw [Walk.andThen]
    split_ifs
    · exact le_rfl
    · exact hnext child walk

/-- A node that is there is read. -/
theorem pos_lt_descend_succ {visitor : Visitor V S E} {nibbles : List Nat} {levels : Nat}
    (hchild : ∀ v walk, walk.pos ≤ (descend visitor nibbles levels v walk).pos) (v : V)
    {walk : Walk S E} {nibble : Nat} (hnibble : nibbles[walk.pos]? = some nibble) :
    walk.pos < (descend visitor nibbles (levels + 1) v walk).pos := by
  rw [descend, hnibble]
  simp only
  split_ifs with hleaf
  · rw [Walk.readLeaf]
    split_ifs
    · cases nibbles[walk.pos + 1]? with
      | none => exact Nat.lt_succ_self _
      | some ext => exact Nat.lt_add_of_pos_right (Nat.succ_pos 1)
    · exact Nat.lt_succ_self _
  · cases visitor.split v (nibble % 4) (nibble / 4) with
    | error e => exact Nat.lt_succ_self _
    | ok targets => exact pos_le_children hchild targets { walk with pos := walk.pos + 1 }

/-- No walk goes back. -/
theorem pos_le_descend (visitor : Visitor V S E) (nibbles : List Nat) (levels : Nat) (v : V)
    (walk : Walk S E) : walk.pos ≤ (descend visitor nibbles levels v walk).pos := by
  induction levels generalizing v walk with
  | zero => exact le_rfl
  | succ levels ih =>
    cases hnibble : nibbles[walk.pos]? with
    | none =>
      rw [descend, hnibble]
      exact le_rfl
    | some nibble => exact (pos_lt_descend_succ ih v hnibble).le

/-- A walk that failed stays where it is. -/
theorem children_of_failure {next : V → Walk S E → Walk S E} (targets : List V)
    {walk : Walk S E} (hfailed : walk.failure.isSome = true) :
    targets.foldl (fun walk child => walk.andThen (next child)) walk = walk := by
  induction targets with
  | nil => rfl
  | cons child rest ih => rw [List.foldl_cons, Walk.andThen, if_pos hfailed, ih]

end States

/-- The children of a split, one after the other. -/
theorem children_beyond {nibbles : List Nat} {next : Nat → Walk (List Nat) Misfit →
      Walk (List Nat) Misfit} {next' : Unit → Walk (List Nat) Empty → Walk (List Nat) Empty}
    {target : Nat}
    (hnext : ∀ pos states, Beyond nibbles (next target { pos, out := states })
      (next' () { pos, out := states }))
    (hforward : ∀ walk, walk.pos ≤ (next' () walk).pos) (n : Nat)
    {walk : Walk (List Nat) Misfit} {walk' : Walk (List Nat) Empty} (h : Beyond nibbles walk walk') :
    Beyond nibbles
      ((List.replicate n target).foldl (fun walk child => walk.andThen (next child)) walk)
      ((List.replicate n ()).foldl (fun walk child => walk.andThen (next' child)) walk') := by
  induction n generalizing walk walk' with
  | zero => exact h
  | succ n ih =>
    rw [List.replicate_succ, List.replicate_succ, List.foldl_cons, List.foldl_cons]
    refine ih ?_
    cases h with
    | going => exact hnext _ _
    | failed e => exact .failed e
    | stopped e hend => exact .stopped e hend
    | past hmore hpos =>
      refine .past hmore (hpos.trans_le ?_)
      rw [Walk.andThen]
      split_ifs
      · exact le_rfl
      · exact hforward _

/-- Below a misfit the walk for the states reads on, if there is something to read. -/
theorem misfit_beyond (nibbles : List Nat) {levels : Nat} (pos : Nat) (states : List Nat) (n : Nat)
    {misfit : Misfit} (hlevels : misfit.levels = levels) :
    Beyond nibbles { pos, out := states, failure := some (.split misfit) }
      ((List.replicate (n + 1) ()).foldl
        (fun walk child => walk.andThen (descend treeVisitor nibbles levels child))
        { pos, out := states }) := by
  rw [List.replicate_succ, List.foldl_cons]
  set start : Walk (List Nat) Empty := { pos, out := states } with hstart
  have hfirst : start.andThen (descend treeVisitor nibbles levels ()) =
      descend treeVisitor nibbles levels () start := rfl
  rw [hfirst]
  cases levels with
  | zero =>
    rw [descend, children_of_failure _ rfl]
    exact .stopped .tooDeep (.inl hlevels)
  | succ levels =>
    cases hnibble : nibbles[pos]? with
    | none =>
      have hread : descend treeVisitor nibbles (levels + 1) () start =
          start.fail (.read .endOfData) := by
        rw [descend, hnibble]
      rw [hread, children_of_failure _ rfl]
      exact .stopped .endOfData (.inr (List.getElem?_eq_none_iff.mp hnibble))
    | some nibble =>
      have hread : nibbles[start.pos]? = some nibble := hnibble
      have hlt : pos < (descend treeVisitor nibbles (levels + 1) () start).pos :=
        pos_lt_descend_succ (pos_le_descend treeVisitor nibbles levels) () hread
      refine .past ?_ (hlt.trans_le (pos_le_children
        (pos_le_descend treeVisitor nibbles (levels + 1)) _ _))
      rintro (hzero | hout)
      · omega
      · rw [List.getElem?_eq_none hout] at hnibble
        cases hnibble

/-- The walk for the states goes on where the guarded one fails at a misfit. -/
theorem descend_beyond (nibbles : List Nat) (levels pos : Nat) (states : List Nat) :
    Beyond nibbles
      (descend guardedVisitor nibbles levels (levels - 1) { pos, out := states })
      (descend treeVisitor nibbles levels () { pos, out := states }) := by
  induction levels generalizing pos states with
  | zero => exact .failed .tooDeep
  | succ levels ih =>
    rw [descend, descend]
    cases hnibble : nibbles[pos]? with
    | none => exact .failed .endOfData
    | some nibble =>
      simp only
      split_ifs with hleaf
      · rw [Walk.readLeaf, Walk.readLeaf]
        split_ifs
        · cases nibbles[pos + 1]? with
          | none => exact .failed .missingExtendedState
          | some ext => exact .going
        · exact .going
      · have htree : treeVisitor.split () (nibble % 4) (nibble / 4) =
            .ok (List.replicate (nibble % 4 + 1) ()) := rfl
        rw [htree]
        by_cases hfits : sideFits (nibble % 4) (nibble / 4) = true
        · have hguarded : guardedVisitor.split (levels + 1 - 1) (nibble % 4) (nibble / 4) =
              .ok (List.replicate (nibble % 4 + 1) (levels - 1)) := if_pos hfits
          rw [hguarded]
          exact children_beyond ih (pos_le_descend treeVisitor nibbles levels ()) _ .going
        · have hguarded : guardedVisitor.split (levels + 1 - 1) (nibble % 4) (nibble / 4) =
              .error { splitType := nibble % 4, side := nibble / 4, levels } := if_neg hfits
          rw [hguarded]
          exact misfit_beyond nibbles (pos + 1) states (nibble % 4) rfl

/-- The walk for the states, compared with the guarded one. -/
theorem tree_beyond (nibbles : List Nat) :
    Beyond nibbles (guardedWalk nibbles)
      (walkTriangleSelectorTree nibbles MAX_LEVELS { pos := 0, out := [] }) :=
  descend_beyond nibbles MAX_LEVELS 0 []

/-! ### The decoders -/

/-- The one digit 12, a leaf that lacks its second digit. -/
def IsLoneExtended (hex : String) : Prop :=
  hexBytes hex = [67] ∨ hexBytes hex = [99]

/-- What the decoders should have in common. -/
structure DecodersAgree {F : Type} [Field F] [DecidableEq F] (hashOrder : List Nat → List Nat)
    (hex : String) (verts : Triangle F) (byteOffset : Nat) : Prop where
  no_panic : decodePaintHexStrokes hex verts byteOffset ≠ .error .panic
  succeeds : (∃ state, decodePaintHexState hashOrder hex byteOffset = .ok state) →
    ∃ strokes, decodePaintHexStrokes hex verts byteOffset = .ok strokes
  walks : ∀ nibbles, parseNibbles (hexBytes hex) byteOffset = .ok nibbles →
    let tree := walkTriangleSelectorTree nibbles MAX_LEVELS { pos := 0, out := [] }
    let strokes := walkTriangleSelectorStrokes nibbles MAX_LEVELS verts { pos := 0, out := [] }
    tree.pos = strokes.pos ∧ (tree.out.filter (· ≠ 0)).Perm (strokes.out.map Prod.snd)

/-- No special side is met that does not fit, unless it is one of a split in four after which
nothing can be read. -/
def SidesFit (nibbles : List Nat) : Prop :=
  ∀ misfit, (guardedWalk nibbles).failure = some (.split misfit) →
    misfit.splitType = 3 ∧ misfit.AtEnd nibbles (guardedWalk nibbles).pos

variable {byteOffset : Nat}

theorem paintNibble_eq_ok_iff {c : UInt8} {nibble : Nat} :
    paintNibble byteOffset c = .ok nibble ↔ hexNibble c = .ok nibble := by
  rw [paintNibble]
  cases hexNibble c with
  | error e => exact iff_of_false (fun h => by cases h) (fun h => by cases h)
  | ok value => rfl

theorem paintNibble_eq_twelve_iff {c : UInt8} :
    paintNibble byteOffset c = .ok 12 ↔ c = 67 ∨ c = 99 := by
  have h67 : (67 : UInt8).toNat = 67 := rfl
  have h99 : (99 : UInt8).toNat = 99 := rfl
  rw [paintNibble_eq_ok_iff, ← UInt8.toNat_inj, ← UInt8.toNat_inj, h67, h99]
  simp only [hexNibble]
  split_ifs with hdigit hupper hlower
  · simp only [Except.ok.injEq]
    omega
  · simp only [Except.ok.injEq]
    omega
  · simp only [Except.ok.injEq]
    omega
  · simp only [false_iff]
    omega

theorem parseNibbles_pair {first second : UInt8} {n m : Nat}
    (hfirst : paintNibble byteOffset first = .ok n)
    (hsecond : paintNibble byteOffset second = .ok m) :
    parseNibbles [first, second] byteOffset = .ok [m, n] := by
  simp [parseNibbles, hfirst, hsecond]
  rfl

theorem parseNibbles_single {only : UInt8} {n : Nat} (honly : paintNibble byteOffset only = .ok n) :
    parseNibbles [only] byteOffset = .ok [n] := by
  simp [parseNibbles, honly]

/-- A leaf that is complete ends a walk. -/
theorem guardedWalk_leaf {nibble : Nat} (hleaf : nibble % 4 = 0) (hstate : nibble / 4 ≠ 3) :
    (guardedWalk [nibble]).failure = none := by
  rw [guardedWalk, MAX_LEVELS, descend]
  simp [hleaf, hstate, Walk.readLeaf]

theorem guardedWalk_extended (ext : Nat) : (guardedWalk [12, ext]).failure = none := by
  rw [guardedWalk, MAX_LEVELS, descend]
  simp [Walk.readLeaf]

theorem guardedWalk_of_state {hashOrder : List Nat → List Nat} {hex : String} {state : Nat}
    (h : decodePaintHexState hashOrder hex byteOffset = .ok state) (hne : hexBytes hex ≠ []) :
    IsLoneExtended hex ∨ ∃ nibbles, parseNibbles (hexBytes hex) byteOffset = .ok nibbles ∧
      ((guardedWalk nibbles).failure = none ∨
        ∃ misfit, (guardedWalk nibbles).failure = some (.split misfit) ∧
          ¬ misfit.AtEnd nibbles (guardedWalk nibbles).pos) := by
  rw [decodePaintHexState] at h
  split at h
  · next hbytes => exact absurd hbytes hne
  · next only hbytes =>
    obtain ⟨nibble, hnibble, h⟩ := Except.of_bind_eq_ok h
    split_ifs at h with hleaf
    rw [not_not] at hleaf
    by_cases hstate : nibble / 4 = 3
    · have htwelve : nibble = 12 := by omega
      rw [htwelve, paintNibble_eq_twelve_iff] at hnibble
      rw [IsLoneExtended, hbytes]
      exact .inl (hnibble.imp (congrArg (fun c => [c])) (congrArg fun c => [c]))
    · refine .inr ⟨[nibble], ?_, .inl (guardedWalk_leaf hleaf hstate)⟩
      rw [hbytes]
      exact parseNibbles_single hnibble
  · next first second hbytes =>
    obtain ⟨n, hn, h⟩ := Except.of_bind_eq_ok h
    obtain ⟨m, hm, h⟩ := Except.of_bind_eq_ok h
    split_ifs at h with htwelve
    rw [not_not] at htwelve
    subst htwelve
    refine .inr ⟨[12, n], ?_, .inl (guardedWalk_extended n)⟩
    rw [hbytes]
    exact parseNibbles_pair hn hm
  · obtain ⟨nibbles, hnibbles, h⟩ := Except.of_bind_eq_ok h
    refine .inr ⟨nibbles, hnibbles, ?_⟩
    have hbeyond := tree_beyond nibbles
    revert h hbeyond
    generalize walkTriangleSelectorTree nibbles MAX_LEVELS { pos := 0, out := [] } = tree
    generalize guardedWalk nibbles = guarded
    intro h hbeyond
    cases hbeyond with
    | going => exact .inl rfl
    | failed e => cases h
    | stopped e hend => cases h
    | past hmore hpos => exact .inr ⟨_, rfl, hmore⟩

section Agreement

variable {F : Type} [Field F] [DecidableEq F] {hashOrder : List Nat → List Nat} {hex : String}
  {verts : Triangle F} {byteOffset : Nat} {nibbles : List Nat}

omit [DecidableEq F] in
/-- The walks agree unless there is something to read below a misfit. -/
theorem walks_agree_iff :
    ((walkTriangleSelectorTree nibbles MAX_LEVELS { pos := 0, out := [] }).pos =
        (walkTriangleSelectorStrokes nibbles MAX_LEVELS verts { pos := 0, out := [] }).pos ∧
      ((walkTriangleSelectorTree nibbles MAX_LEVELS { pos := 0, out := [] }).out.filter
          (· ≠ 0)).Perm
        ((walkTriangleSelectorStrokes nibbles MAX_LEVELS verts { pos := 0, out := [] }).out.map
          Prod.snd)) ↔
      ∀ misfit, (guardedWalk nibbles).failure = some (.split misfit) →
        misfit.AtEnd nibbles (guardedWalk nibbles).pos := by
  have hstrokes := strokes_related nibbles verts
  have hout := hstrokes.out
  rw [StrokesOf] at hout
  rw [hstrokes.pos, hout]
  have hbeyond := tree_beyond nibbles
  revert hbeyond
  generalize walkTriangleSelectorTree nibbles MAX_LEVELS { pos := 0, out := [] } = tree
  generalize guardedWalk nibbles = guarded
  intro hbeyond
  cases hbeyond with
  | going => exact iff_of_true ⟨rfl, .refl _⟩ fun _ hfailure => by cases hfailure
  | failed e => exact iff_of_true ⟨rfl, .refl _⟩ fun _ hfailure => by cases hfailure
  | stopped e hend =>
    refine iff_of_true ⟨rfl, .refl _⟩ fun _ hfailure => ?_
    cases hfailure
    exact hend
  | past hmore hpos =>
    exact iff_of_false (fun h => hpos.ne' h.1) fun h => hmore (h _ rfl)

/-- How the decoding of the strokes ends, by the guarded walk. -/
theorem decodePaintHexStrokes_spec (hnibbles : parseNibbles (hexBytes hex) byteOffset = .ok nibbles)
    (hne : hexBytes hex ≠ []) :
    ((∃ strokes, decodePaintHexStrokes hex verts byteOffset = .ok strokes) ↔
        (guardedWalk nibbles).failure = none) ∧
      (decodePaintHexStrokes hex verts byteOffset = .error .panic ↔
        ∃ misfit, (guardedWalk nibbles).failure = some (.split misfit) ∧ misfit.splitType ≠ 3) := by
  have hfailure := (strokes_related nibbles verts).failure
  simp only [decodePaintHexStrokes, if_neg hne, hnibbles, Except.mapError, Except.ok_bind]
  revert hfailure
  generalize walkTriangleSelectorStrokes nibbles MAX_LEVELS verts { pos := 0, out := [] } = walk
  generalize hend : walk.failure = failure
  generalize (guardedWalk nibbles).failure = failure'
  intro hfailure
  cases hfailure with
  | none =>
    refine ⟨iff_of_true ⟨_, rfl⟩ rfl, iff_of_false (fun h => by cases h) ?_⟩
    rintro ⟨misfit, hmisfit, -⟩
    cases hmisfit
  | read e =>
    refine ⟨iff_of_false ?_ (fun h => by cases h), iff_of_false (fun h => by cases h) ?_⟩
    · rintro ⟨strokes, hstrokes⟩
      cases hstrokes
    · rintro ⟨misfit, hmisfit, -⟩
      cases hmisfit
  | @split e misfit hfails =>
    rw [FailsAs] at hfails
    split_ifs at hfails with hfour
    · subst hfails
      refine ⟨iff_of_false ?_ (fun h => by cases h), iff_of_false (fun h => by cases h) ?_⟩
      · rintro ⟨strokes, hstrokes⟩
        cases hstrokes
      · rintro ⟨misfit', hmisfit, hother⟩
        cases hmisfit
        exact hother hfour
    · subst hfails
      refine ⟨iff_of_false ?_ (fun h => by cases h), iff_of_true rfl ⟨misfit, rfl, hfour⟩⟩
      rintro ⟨strokes, hstrokes⟩
      cases hstrokes

theorem parseNibbles_lone (h : IsLoneExtended hex) (byteOffset : Nat) :
    parseNibbles (hexBytes hex) byteOffset = .ok [12] := by
  rcases h with h | h
  · rw [h]
    exact parseNibbles_single (paintNibble_eq_twelve_iff.mpr (.inl rfl))
  · rw [h]
    exact parseNibbles_single (paintNibble_eq_twelve_iff.mpr (.inr rfl))

/-- The lone digit 12 is a state, but no tree. -/
theorem decode_lone (h : IsLoneExtended hex) :
    decodePaintHexState hashOrder hex byteOffset = .ok 3 ∧
      ¬ ∃ strokes, decodePaintHexStrokes hex verts byteOffset = .ok strokes := by
  constructor
  · rcases h with h | h
    · rw [decodePaintHexState, h]
      simp only [paintNibble_eq_twelve_iff.mpr (.inl rfl)]
      rfl
    · rw [decodePaintHexState, h]
      simp only [paintNibble_eq_twelve_iff.mpr (.inr rfl)]
      rfl
  · have hne : hexBytes hex ≠ [] := by
      rcases h with h | h
      · simp [h]
      · simp [h]
    rw [(decodePaintHexStrokes_spec (parseNibbles_lone h byteOffset) hne).1, guardedWalk,
      MAX_LEVELS, descend]
    simp [Walk.readLeaf, Walk.fail]

/-- The decoders agree on a string just when it is not the lone digit 12 and its special sides
fit. -/
theorem decodersAgree_iff (hashOrder : List Nat → List Nat) (hex : String) (verts : Triangle F)
    (byteOffset : Nat) :
    DecodersAgree hashOrder hex verts byteOffset ↔
      ¬ IsLoneExtended hex ∧
        ∀ nibbles, parseNibbles (hexBytes hex) byteOffset = .ok nibbles → SidesFit nibbles := by
  by_cases hne : hexBytes hex = []
  · -- nothing is painted, and nothing is read
    have hnothing : SidesFit [] := by
      intro misfit hmisfit
      rw [guardedWalk, MAX_LEVELS, descend] at hmisfit
      cases hmisfit
    have hstrokes : decodePaintHexStrokes hex verts byteOffset = .ok [] := if_pos hne
    have hlone : ¬ IsLoneExtended hex := by
      rw [IsLoneExtended, hne]
      simp
    refine iff_of_true ⟨?_, fun _ => ⟨_, hstrokes⟩, ?_⟩ ⟨hlone, ?_⟩
    · rw [hstrokes]
      exact fun h => by cases h
    · intro nibbles hnibbles
      rw [hne] at hnibbles
      cases hnibbles
      exact walks_agree_iff.mpr fun misfit hmisfit => (hnothing misfit hmisfit).2
    · intro nibbles hnibbles
      rw [hne] at hnibbles
      cases hnibbles
      exact hnothing
  · constructor
    · intro hagree
      refine ⟨fun hlone => ?_, fun nibbles hnibbles misfit hmisfit => ⟨?_, ?_⟩⟩
      · obtain ⟨hstate, hstrokes⟩ : decodePaintHexState hashOrder hex byteOffset = .ok 3 ∧
            ¬ ∃ strokes, decodePaintHexStrokes hex verts byteOffset = .ok strokes := decode_lone hlone
        exact hstrokes (hagree.succeeds ⟨3, hstate⟩)
      · by_contra hother
        exact hagree.no_panic
          ((decodePaintHexStrokes_spec hnibbles hne).2.mpr ⟨misfit, hmisfit, hother⟩)
      · exact walks_agree_iff.mp (hagree.walks nibbles hnibbles) misfit hmisfit
    · rintro ⟨hlone, hfit⟩
      refine ⟨?_, ?_, fun nibbles hnibbles =>
        walks_agree_iff.mpr fun misfit hmisfit => (hfit nibbles hnibbles misfit hmisfit).2⟩
      · cases hparse : parseNibbles (hexBytes hex) byteOffset with
        | error e =>
          simp only [decodePaintHexStrokes, if_neg hne, hparse]
          exact fun h => by cases h
        | ok nibbles =>
          rw [ne_eq, (decodePaintHexStrokes_spec hparse hne).2]
          rintro ⟨misfit, hmisfit, hother⟩
          exact hother (hfit nibbles hparse misfit hmisfit).1
      · rintro ⟨state, hstate⟩
        rcases guardedWalk_of_state hstate hne with hlone' | ⟨nibbles, hnibbles, hend⟩
        · exact absurd hlone' hlone
        · rcases hend with hend | ⟨misfit, hmisfit, hmore⟩
          · exact (decodePaintHexStrokes_spec hnibbles hne).1.mpr hend
          · exact absurd (hfit nibbles hnibbles misfit hmisfit).2 hmore

end Agreement

/-- The triangle of the coordinate axes. -/
def unitTriangle : Triangle ℚ where
  v0 := { x := 1, y := 0, z := 0 }
  v1 := { x := 0, y := 1, z := 0 }
  v2 := { x := 0, y := 0, z := 1 }

/-- A split in two with the special side 3 indexes past the last vertex. -/
theorem not_decodersAgree_panic :
    decodePaintHexStrokes "444D" unitTriangle 0 = .error .panic ∧
      decodePaintHexState id "444D" 0 = .ok 1 ∧
      ¬ DecodersAgree id "444D" unitTriangle 0 := by
  have hpanic : decodePaintHexStrokes "444D" unitTriangle 0 = .error .panic := by decide +kernel
  exact ⟨hpanic, by decide +kernel, fun hagree => hagree.no_panic hpanic⟩

end PinchNPrint.Loader
