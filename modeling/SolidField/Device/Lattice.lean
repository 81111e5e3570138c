import SolidField.Program.Machine

/-!
# Lattices

A lattice is a grid of samples at equal spacing.  Its cells are packed in one
sequence, the first axis fastest.
-/

namespace SolidField

/-- The number of samples on every axis, or the position of one of them. -/
abbrev GridVector := Vec3 UInt32

namespace GridVector

def toSingle (v : GridVector) : Vec3 Single :=
  ⟨.ofNat v.x.toNat, .ofNat v.y.toNat, .ofNat v.z.toNat⟩

def toFloat (v : GridVector) : Vec3 Float :=
  ⟨.ofNat v.x.toNat, .ofNat v.y.toNat, .ofNat v.z.toNat⟩

def toNat (v : GridVector) : Vec3 Nat :=
  ⟨v.x.toNat, v.y.toNat, v.z.toNat⟩

/-- The number of cells, in a machine word. -/
def cellWord (v : GridVector) : UInt64 :=
  v.x.toUInt64 * v.y.toUInt64 * v.z.toUInt64

def text (v : GridVector) : String :=
  "UVec3(" ++ toString v.x.toNat ++ ", " ++ toString v.y.toNat ++ ", " ++
    toString v.z.toNat ++ ")"

end GridVector

/--
The position of a packed index in a grid, in the word arithmetic of the packing.
A grid whose plane has no cells has no positions.
-/
def unpackIndex? (index : UInt32) (dims : GridVector) : Option GridVector :=
  let plane := dims.x * dims.y
  if dims.x = 0 ∨ plane = 0 then
    none
  else
    some ⟨index % dims.x, index % plane / dims.x, index / plane⟩

/-- The packed index of a position in a grid. -/
def packIndex (position dims : Vec3 Nat) : Nat :=
  position.x + dims.x * (position.y + dims.y * position.z)

/-- The coordinate of a sample on one axis. -/
def sampleCoordinate (origin spacing : Single) (index : Nat) : Single :=
  origin + Single.ofNat index * spacing

/-- The position of a sample. -/
def latticePoint (origin : Vec3 Single) (spacing : Single) (index : Vec3 Nat) :
    Vec3 Single :=
  ⟨sampleCoordinate origin.x spacing index.x,
    sampleCoordinate origin.y spacing index.y,
    sampleCoordinate origin.z spacing index.z⟩

/-- The coordinates of the samples on one axis. -/
def sampleCoordinates (origin spacing : Single) (count : Nat) : List Single :=
  (List.range count).map (sampleCoordinate origin spacing)

/-- The sample positions of a lattice, the first axis fastest. -/
def latticePoints (origin : Vec3 Single) (spacing : Single) (dims : Vec3 Nat) :
    List (Vec3 Single) :=
  if dims.x = 0 ∨ dims.y = 0 ∨ dims.z = 0 then
    []
  else
    let xs := sampleCoordinates origin.x spacing dims.x
    let ys := sampleCoordinates origin.y spacing dims.y
    let zs := sampleCoordinates origin.z spacing dims.z
    zs.flatMap fun z => ys.flatMap fun y => xs.map fun x => ⟨x, y, z⟩

/-- The largest number of distances that a buffer can have, of four bytes each. -/
def maxDistances : Nat := (UInt64.size / 2 - 1) / 4

/--
The buffer for the distances of a lattice.  Both its size and the size of its
slices, one for each layer of the lattice, are products of machine words, and so
a slice can have less room than a layer needs.
-/
structure LatticeBuffer where
  size : Nat
  /-- The number of slices with room for a whole layer, which come first. -/
  layers : Nat
  /-- The size of the slice after them, or zero if there is none. -/
  rest : Nat
deriving DecidableEq

def LatticeBuffer.ofDims (dims : Vec3 Nat) : LatticeBuffer :=
  let layer := dims.x * dims.y
  let slice := layer % UInt64.size
  let size := layer * dims.z % UInt64.size
  let layers := if slice = layer then size / layer else 0
  ⟨size, layers, min slice (size - layers * layer)⟩

/--
The distances on a lattice, the first axis fastest.  A slice with too little room
is filled up to its end.
-/
def Machine.evalLattice (machine : Machine) (origin : Vec3 Single)
    (spacing : Single) (dims : Vec3 Nat) : Except MachineFault (List Single) :=
  let buffer := LatticeBuffer.ofDims dims
  if buffer.size = 0 then
    .ok []
  else if maxDistances < buffer.size then
    .error .capacityOverflow
  else do
    let values ← machine.evalBatch
      (latticePoints origin spacing { dims with z := buffer.layers })
    if buffer.rest = 0 then
      pure (values.map Vec4.w)
    else
      -- Every point of the slice has the fault that its first one has.
      let _ ← machine.distance
        (latticePoint origin spacing ⟨0, 0, buffer.layers⟩)
      .error (.missingSample buffer.rest buffer.rest)

end SolidField
