import SphereSearch.Grid.CellId
import SphereSearch.Sphere.Cap
import SphereSearch.Sphere.Crossing

/-!
# The geometry of a cell

A cell of the grid as a region of the sphere: its corners, a cap around it, and its distance
to points and edges.  Tests for containment allow a few units in the last place beyond the
sides, so that rounding cannot leave a gap between neighbours.
-/

namespace SphereSearch

/-- A cell of the grid with its geometry. -/
structure Cell where
  /-- Its name. -/
  id : CellId
  /-- Its rectangle on the face. -/
  bounds : CellId.Bounds
  /-- Its corners, counter-clockwise. -/
  corners : List Point
  /-- A cap that holds it. -/
  cap : Cap

namespace Cell

/-- The radius of the cap around a centre that holds the given points.  It is widened by
twice the error of the greatest distance. -/
def radiusAround (center : Point) (points : List Point) : Chord :=
  let radius := points.foldl (fun r p => max r (Chord.between center p)) Chord.zero
  radius.widen (2.0 * radius.pointError)

/-- The geometry of a cell. -/
def ofId (id : CellId) : Cell :=
  let bounds := id.bounds
  { id := id
    bounds := bounds
    corners := bounds.corners
    cap := ⟨bounds.center, radiusAround bounds.center bounds.corners⟩ }

/-- The cell of a level that holds a point. -/
def ofPoint (p : Point) (level : Nat) : Cell := ofId ((CellId.ofPoint p).parentAt level)

/-- The middle of the cell. -/
def center (c : Cell) : Point := c.cap.center

/-- The four sides. -/
def sides (c : Cell) : List Edge :=
  List.zipWith Edge.mk c.corners (c.corners.drop 1 ++ c.corners.take 1)

/-- How far beyond its sides a cell still counts a point as its own. -/
def margin : Float := 4.0 * Binary64.epsilon

/-- Whether the point lies in the cell, up to the margin. -/
def contains (c : Cell) (p : Point) : Bool :=
  match Cube.projectTo? c.bounds.face p with
  | some (u, v) =>
    u ≥ c.bounds.uMin - margin && u ≤ c.bounds.uMax + margin &&
      v ≥ c.bounds.vMin - margin && v ≤ c.bounds.vMax + margin
  | none => false

/-- The distance from a point to the cell: zero inside, and the distance to the nearest side
otherwise. -/
def distanceToPoint (c : Cell) (p : Point) : Chord :=
  if c.contains p then Chord.zero
  else Closer.distance (Closer.chain (c.sides.map fun side => side.closerPoint? p))

/-- The distance from an edge to the cell: zero if an end lies inside, and the distance to
the nearest side otherwise. -/
def distanceToEdge (c : Cell) (e : Edge) : Chord :=
  if c.contains e.start || c.contains e.stop then Chord.zero
  else Closer.distance (Closer.chain (c.sides.map fun side => e.closerEdge? side))

/-- Whether the edge may meet the cell.  The cap rules out edges far away; the rest have to
come within `1e-15` of the cell. -/
def mayMeet (c : Cell) (e : Edge) : Bool :=
  if c.cap.distanceToEdge e > Chord.zero then false
  else (c.distanceToEdge e).len2 ≤ 1e-30

end Cell

end SphereSearch
