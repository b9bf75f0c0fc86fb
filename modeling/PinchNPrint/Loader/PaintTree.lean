/-
The paint strings of a 3MF file (`slicer-model-io`: `loader.rs`).

A paint string is a tree in hexadecimal digits, the last digit first. A digit is a node: its
lower two bits say into how many triangles it is split, the upper two are the state of a leaf
or the special side of a split. Two walks descend through the same digits, one for the states
and one for the sub-triangles: `descend` is the descent they share, and each of them is it
with a visitor of its own. A walk keeps what it has read when it fails.

The order in which a hash map yields its entries is a parameter. Coordinates are the elements
of a field. A panic is a failure of its own.
-/

import PinchNPrint.Lib.Numerals
import PinchNPrint.Region.Ir

namespace PinchNPrint.Loader

open Region (Point3)

/-! ### Errors -/

/-- `ModelLoadError`, as far as paint strings raise it. -/
inductive ModelLoadError where
  | ThreeMfParse (message : String)
  | PaintMetadata (reason : String) (byteOffset : Nat)
deriving DecidableEq

/-- The text of an error. -/
def ModelLoadError.display : ModelLoadError → String
  | .ThreeMfParse message => s!"3MF parse error: {message}"
  | .PaintMetadata reason byteOffset => s!"paint metadata error at byte {byteOffset}: {reason}"

/-- How a decoder may fail. -/
inductive LoadFailure where
  | error (e : ModelLoadError)
  | panic
deriving DecidableEq

def hexNibble (c : UInt8) : Except ModelLoadError Nat :=
  let code := c.toNat
  if 48 ≤ code ∧ code ≤ 57 then .ok (code - 48)
  else if 65 ≤ code ∧ code ≤ 70 then .ok (code - 65 + 10)
  else if 97 ≤ code ∧ code ≤ 102 then .ok (code - 97 + 10)
  else .error (.ThreeMfParse s!"invalid hex digit: {Char.ofNat code}")

/-- A digit of a paint string. -/
def paintNibble (byteOffset : Nat) (c : UInt8) : Except ModelLoadError Nat :=
  (hexNibble c).mapError fun e =>
    .PaintMetadata s!"invalid hex digit in paint state: {e.display}" byteOffset

/-- `parse_nibbles`: the last digit first. -/
def parseNibbles (hex : List UInt8) (byteOffset : Nat) : Except ModelLoadError (List Nat) :=
  hex.reverse.mapM (paintNibble byteOffset)

/-! ### The descent -/

/-- How the reading of a node may fail. -/
inductive ReadError where
  | tooDeep
  | endOfData
  | missingExtendedState
deriving DecidableEq

/-- The reason that is given. -/
def ReadError.reason : ReadError → String
  | .tooDeep => "TriangleSelector tree exceeds maximum depth"
  | .endOfData => "unexpected end of TriangleSelector tree data"
  | .missingExtendedState =>
      "unexpected end of TriangleSelector tree: missing extended state nibble"

/-- How a walk may fail: in reading, or in splitting. -/
inductive WalkFailure (E : Type) where
  | read (e : ReadError)
  | split (e : E)
deriving DecidableEq

/-- The state of a walk; one that failed goes no further. -/
structure Walk (S E : Type) where
  pos : Nat
  out : S
  failure : Option (WalkFailure E) := none
deriving DecidableEq

/-- What a walk does: at a leaf, and where a target is split into others. -/
structure Visitor (V S E : Type) where
  leaf : V → Nat → S → S
  split : V → Nat → Nat → Except E (List V)

namespace Walk

variable {S E : Type}

/-- The walk fails. -/
def fail (walk : Walk S E) (e : WalkFailure E) : Walk S E :=
  { walk with failure := some e }

/-- The walk goes on, unless it failed. -/
def andThen (walk : Walk S E) (next : Walk S E → Walk S E) : Walk S E :=
  if walk.failure.isSome then walk else next walk

/-- A leaf with these state bits: the state 3 is followed by a digit that says by how much it
is exceeded. -/
def readLeaf (nibbles : List Nat) (stateBits : Nat) (leaf : Nat → S → S) (walk : Walk S E) :
    Walk S E :=
  if stateBits = 3 then
    match nibbles[walk.pos]? with
    | none => walk.fail (.read .missingExtendedState)
    | some ext => { walk with pos := walk.pos + 1, out := leaf (ext + 3) walk.out }
  else { walk with out := leaf stateBits walk.out }

end Walk

/-- A descent with so many levels left: at depth 0 there are 65 of them. -/
def descend {V S E : Type} (visitor : Visitor V S E) (nibbles : List Nat) :
    Nat → V → Walk S E → Walk S E
  | 0, _, walk => walk.fail (.read .tooDeep)
  | levels + 1, target, walk =>
      match nibbles[walk.pos]? with
      | none => walk.fail (.read .endOfData)
      | some nibble =>
          let walk := { walk with pos := walk.pos + 1 }
          let splitType := nibble % 4
          if splitType = 0 then walk.readLeaf nibbles (nibble / 4) (visitor.leaf target)
          else
            match visitor.split target splitType (nibble / 4) with
            | .error e => walk.fail (.split e)
            | .ok targets =>
                targets.foldl
                  (fun walk child => walk.andThen (descend visitor nibbles levels child)) walk

/-- The levels of a walk from the root. -/
def MAX_LEVELS : Nat :=
  65

/-! ### The states of the leaves -/

/-- The visitor that collects states: the upper bits of a split are not read. -/
def treeVisitor : Visitor Unit (List Nat) Empty where
  leaf _ state states := states ++ [state]
  split _ splitType _ := .ok (List.replicate (splitType + 1) ())

def walkTriangleSelectorTree (nibbles : List Nat) : Nat → Walk (List Nat) Empty →
    Walk (List Nat) Empty :=
  fun levels => descend treeVisitor nibbles levels ()

/-- `dominant_paint_state`: of the states that are not zero the most frequent one, the last of
them in the order of the hash map. -/
def dominantPaintState (hashOrder : List Nat → List Nat) (states : List Nat) : Nat :=
  let painted := states.filter (· ≠ 0)
  ((hashOrder painted.dedup).foldl (fun best state =>
    if best.all fun other => painted.count other ≤ painted.count state then some state else best)
    none).getD 0

/-! ### The sub-triangles of the leaves -/

/-- `[Point3; 3]`. -/
structure Triangle (F : Type) where
  v0 : Point3 F
  v1 : Point3 F
  v2 : Point3 F
deriving DecidableEq

/-- A vertex by its index; an index past the last is a panic. -/
def Triangle.corner {F : Type} (verts : Triangle F) (i : Nat) : Option (Point3 F) :=
  [verts.v0, verts.v1, verts.v2][i]?

/-- How a split may fail. -/
inductive SplitFailure where
  | specialSide (side : Nat)
  | panic
deriving DecidableEq

def isDegenerateTriangle {F : Type} [DecidableEq F] (tri : Triangle F) : Bool :=
  tri.v0 = tri.v1 ∨ tri.v1 = tri.v2 ∨ tri.v0 = tri.v2

section Strokes

variable {F : Type} [Field F]

def midpoint (a b : Point3 F) : Point3 F where
  x := (a.x + b.x) * (1 / 2)
  y := (a.y + b.y) * (1 / 2)
  z := (a.z + b.z) * (1 / 2)

/-- `split_triangle_strokes`, for the split types 1 to 3. -/
def splitTriangleStrokes (verts : Triangle F) (splitType specialSide : Nat) :
    Except SplitFailure (List (Triangle F)) :=
  if splitType = 3 then
    if specialSide ≠ 0 then .error (.specialSide specialSide)
    else
      let m01 := midpoint verts.v0 verts.v1
      let m12 := midpoint verts.v1 verts.v2
      let m20 := midpoint verts.v2 verts.v0
      .ok [⟨verts.v0, m01, m20⟩, ⟨m01, verts.v1, m12⟩, ⟨m12, verts.v2, m20⟩, ⟨m01, m12, m20⟩]
  else
    match verts.corner specialSide, verts.corner ((specialSide + 1) % 3),
      verts.corner ((specialSide + 2) % 3) with
    | some vi, some vj, some vk =>
        if splitType = 1 then
          let mjk := midpoint vj vk
          .ok [⟨vi, vj, mjk⟩, ⟨mjk, vk, vi⟩]
        else
          let mij := midpoint vi vj
          let mik := midpoint vi vk
          .ok [⟨vi, mij, mik⟩, ⟨mij, vj, mik⟩, ⟨vj, vk, mik⟩]
    | _, _, _ => .error .panic

/-- The visitor that collects painted sub-triangles; the children come in reverse order. -/
def strokeVisitor : Visitor (Triangle F) (List (Triangle F × Nat)) SplitFailure where
  leaf verts state out := if state ≠ 0 then out ++ [(verts, state)] else out
  split verts splitType specialSide :=
    (splitTriangleStrokes verts splitType specialSide).map List.reverse

def walkTriangleSelectorStrokes (nibbles : List Nat) : Nat → Triangle F →
    Walk (List (Triangle F × Nat)) SplitFailure → Walk (List (Triangle F × Nat)) SplitFailure :=
  descend strokeVisitor nibbles

end Strokes

/-! ### The decoders -/

/-- The digits of a string. -/
def hexBytes (hex : String) : List UInt8 :=
  (Text.trim hex).toUTF8.data.toList

def decodePaintHexState (hashOrder : List Nat → List Nat) (hexStr : String) (byteOffset : Nat) :
    Except ModelLoadError Nat :=
  match hexBytes hexStr with
  | [] => .ok 0
  | [only] => do
      let nibble ← paintNibble byteOffset only
      if nibble % 4 ≠ 0 then
        .error (.PaintMetadata "TriangleSelector subdivision is not supported" byteOffset)
      else .ok (nibble / 4)
  | [first, second] => do
      let first ← paintNibble byteOffset first
      let second ← paintNibble byteOffset second
      if second ≠ 12 then
        if second % 4 ≠ 0 then
          .error (.PaintMetadata "TriangleSelector subdivision is not supported" byteOffset)
        else
          .error (.PaintMetadata ("invalid 2-char TriangleSelector encoding: second nibble must " ++
            s!"be 0xC, got 0x{(Nat.toDigits 16 second).map Char.toUpper |> String.ofList}")
            byteOffset)
      else .ok (first + 3)
  | bytes => do
      let nibbles ← parseNibbles bytes byteOffset
      let walk := walkTriangleSelectorTree nibbles MAX_LEVELS { pos := 0, out := [] }
      match walk.failure with
      | none => .ok (dominantPaintState hashOrder walk.out)
      | some (.read e) => .error (.PaintMetadata e.reason byteOffset)

def decodePaintHexStrokes {F : Type} [Field F] [DecidableEq F] (hex : String) (verts : Triangle F)
    (byteOffset : Nat) : Except LoadFailure (List (Triangle F × Nat)) :=
  let bytes := hexBytes hex
  if bytes = [] then .ok []
  else do
    let nibbles ← (parseNibbles bytes byteOffset).mapError .error
    let walk := walkTriangleSelectorStrokes nibbles MAX_LEVELS verts { pos := 0, out := [] }
    match walk.failure with
    | none => .ok (walk.out.filter fun pair => !isDegenerateTriangle pair.1)
    | some (.read e) => .error (.error (.PaintMetadata e.reason byteOffset))
    | some (.split (.specialSide side)) =>
        .error (.error (.PaintMetadata s!"split_sides=3 requires special_side=0, got {side}"
          byteOffset))
    | some (.split .panic) => .error .panic

end PinchNPrint.Loader
