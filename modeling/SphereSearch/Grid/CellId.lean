import SphereSearch.Grid.Cube

/-!
# Cells of the grid

Each face of the cube is split into four squares, each square into four again, and so on for
thirty levels.  A cell is named by a word of 64 bits: three for the face, two for each step
of the path down from it, and a marker bit that ends the path.

    face | d₁ | d₂ | … | d_level | 1 0 0 … 0

So the cells inside a cell have the words of one interval, from `rangeMin` to `rangeMax`, with
the cell itself in the middle, and the order of words is the order of a walk through the
tree that visits each cell between its second and third child.
-/

namespace SphereSearch

/-- The name of a cell of the grid. -/
structure CellId where
  /-- The word that packs face, path and marker. -/
  raw : UInt64
deriving DecidableEq

namespace CellId

/-- The depth of the smallest cells. -/
def maxLevel : Nat := 30

/-- The number of faces. -/
def faceCount : Nat := 6

instance : LT CellId := ⟨fun a b => a.raw < b.raw⟩
instance : LE CellId := ⟨fun a b => a.raw ≤ b.raw⟩
instance (a b : CellId) : Decidable (a < b) := inferInstanceAs (Decidable (a.raw < b.raw))
instance (a b : CellId) : Decidable (a ≤ b) := inferInstanceAs (Decidable (a.raw ≤ b.raw))
instance : Ord CellId := ⟨fun a b => compare a.raw b.raw⟩

/-! ## Place in the tree -/

/-- The marker bit of a cell at the given level. -/
def markerAt (level : Nat) : UInt64 := 1 <<< (2 * (maxLevel - level)).toUInt64

/-- The marker bit: the lowest bit set. -/
def marker (id : CellId) : UInt64 := id.raw &&& (0 - id.raw)

/-- The face of the cell. -/
def face (id : CellId) : Nat := (id.raw >>> 61).toNat

/-- How many times the cell can be split. -/
def height (id : CellId) : Nat := id.marker.toNat.log2 / 2

/-- The number of steps from the face to the cell. -/
def level (id : CellId) : Nat := maxLevel - id.height

/-- Whether the cell is a whole face. -/
def isFace (id : CellId) : Bool := id.level = 0

/-- Whether the cell cannot be split. -/
def isLeaf (id : CellId) : Bool := id.raw &&& 1 ≠ 0

/-- Whether the word names a cell: the face exists, and the marker stands where a path can
end. -/
def isValid (id : CellId) : Bool :=
  id.face < faceCount && id.marker &&& 0x1555555555555555 ≠ 0

/-- The cell that is a whole face. -/
def ofFace (face : Nat) : CellId := ⟨(face.toUInt64 <<< 61) + markerAt 0⟩

/-- Cuts the path of a cell at a marker. -/
def withMarker (id : CellId) (m : UInt64) : CellId := ⟨(id.raw &&& (0 - m)) ||| m⟩

/-- The ancestor at a level not below the cell's own. -/
def parentAt (id : CellId) (level : Nat) : CellId := id.withMarker (markerAt level)

/-- The cell of which this one is a quarter; the cell is no face. -/
def parent (id : CellId) : CellId := id.withMarker (id.marker <<< 2)

/-- The quarter number `k`, for a `k` below four and a cell that is no leaf. -/
def child (id : CellId) (k : Nat) : CellId :=
  ⟨id.raw - id.marker + (2 * k + 1).toUInt64 * (id.marker >>> 2)⟩

/-- The four quarters in ascending order. -/
def children (id : CellId) : List CellId := (List.range 4).map id.child

/-- The digits of the path from the face, each below four. -/
def path (id : CellId) : List Nat :=
  (List.range id.level).map fun l =>
    ((id.raw >>> (2 * (maxLevel - (l + 1)) + 1).toUInt64) &&& 3).toNat

/-- The path for a reader: the face, then the digits. -/
def text (id : CellId) : String :=
  "CellId(" ++ toString id.face ++ "/" ++ String.join (id.path.map toString) ++ ")"

/-! ## Ranges -/

/-- The least leaf in the cell. -/
def rangeMin (id : CellId) : CellId := ⟨id.raw - (id.marker - 1)⟩

/-- The greatest leaf in the cell. -/
def rangeMax (id : CellId) : CellId := ⟨id.raw + (id.marker - 1)⟩

/-- Whether `other` is the cell or lies inside it. -/
def contains (id other : CellId) : Bool := id.rangeMin ≤ other && other ≤ id.rangeMax

/-- Whether the cells have a leaf in common. -/
def intersects (id other : CellId) : Bool :=
  other.rangeMin ≤ id.rangeMax && other.rangeMax ≥ id.rangeMin

/-- The smallest cell that contains both, unless they are on different faces.  The highest
bit in which they differ is not in its path, and neither is any bit from a marker on. -/
def commonAncestor? (id other : CellId) : Option CellId :=
  if id.face ≠ other.face then none
  else
    let differing := max (id.raw ^^^ other.raw) (max id.marker other.marker)
    let shared := maxLevel - (differing.toNat.log2 + 1) / 2
    some (id.parentAt (min shared (min id.level other.level)))

/-! ## Squares -/

/-- Interleaves the last `n` binary digits of `i` and `j`; those of `i` come first. -/
def interleave : (n i j : Nat) → Nat
  | 0, _, _ => 0
  | n + 1, i, j => 4 * interleave n (i / 2) (j / 2) + 2 * (i % 2) + j % 2

/-- Every second binary digit of `x`, from the last one on, `n` of them. -/
def everySecondBit : (n x : Nat) → Nat
  | 0, _ => 0
  | n + 1, x => 2 * everySecondBit n (x / 4) + x % 2

/-- A square of the grid of a face. -/
structure Square where
  /-- The face. -/
  face : Nat
  /-- The first grid step along `u`. -/
  i : Nat
  /-- The first grid step along `v`. -/
  j : Nat
  /-- The number of grid steps along each side. -/
  size : Nat
deriving DecidableEq, Repr

/-- The leaf at a grid step of a face.  Both steps are below `Cube.gridSize` for a leaf of the
face; the digits of larger ones run into the bits of the face. -/
def ofGrid (face i j : Nat) : CellId :=
  ⟨(face.toUInt64 <<< 61) ||| ((interleave 32 i j).toUInt64 <<< 1) ||| 1⟩

/-- The leaf that holds a point. -/
def ofPoint (p : Point) : CellId :=
  let q := Cube.project p
  ofGrid q.face (Cube.gridStep q.u) (Cube.gridStep q.v)

/-- The square that a cell covers on its face. -/
def square (id : CellId) : Square :=
  let position := (id.rangeMin.raw &&& 0x1FFFFFFFFFFFFFFF).toNat / 2
  { face := id.face
    i := everySecondBit maxLevel (position / 2)
    j := everySecondBit maxLevel position
    size := 2 ^ id.height }

/-- A rectangle on a face, as coordinate intervals. -/
structure Bounds where
  /-- The face. -/
  face : Nat
  /-- The least first coordinate. -/
  uMin : Float
  /-- The greatest first coordinate. -/
  uMax : Float
  /-- The least second coordinate. -/
  vMin : Float
  /-- The greatest second coordinate. -/
  vMax : Float

/-- The coordinates that a cell covers on its face. -/
def bounds (id : CellId) : Bounds :=
  let s := id.square
  { face := s.face
    uMin := Cube.gridLine s.i
    uMax := Cube.gridLine (s.i + s.size)
    vMin := Cube.gridLine s.j
    vMax := Cube.gridLine (s.j + s.size) }

/-- The point of the sphere at face coordinates of the rectangle's face. -/
def Bounds.point (b : Bounds) (u v : Float) : Point :=
  (Cube.FacePoint.direction ⟨b.face, u, v⟩).normalize

/-- The corners, as points of the sphere, counter-clockwise. -/
def Bounds.corners (b : Bounds) : List Point :=
  [b.point b.uMin b.vMin, b.point b.uMax b.vMin, b.point b.uMax b.vMax, b.point b.uMin b.vMax]

/-- The middle of the rectangle, as a point of the sphere. -/
def Bounds.center (b : Bounds) : Point :=
  b.point (0.5 * (b.uMin + b.uMax)) (0.5 * (b.vMin + b.vMax))

/-- The middle of the cell, as a point of the sphere. -/
def center (id : CellId) : Point := id.bounds.center

/-- The point of the cell at which the index records which interiors hold the cell.  It lies
off the centre, so that it avoids the round coordinates at which vertices tend to be. -/
def anchor (id : CellId) : Point :=
  let b := id.bounds
  b.point (b.uMin + (b.uMax - b.uMin) * 0.5618033988749895)
    (b.vMin + (b.vMax - b.vMin) * 0.4585786437626905)

end CellId

end SphereSearch
