import SphereSearch.Shape.Loop
import SphereSearch.Shape.Validity
import SphereSearch.Sphere.Crossing

/-!
# Polygons

A polygon is a list of loops whose interior lies to the left of every edge, and so may well
be the larger part of the sphere.  Which side is the inside is pinned down by one reference
point: another point is inside as well if the path between them crosses the boundary an even
number of times.  Without loops a polygon is empty or the whole sphere.

`Polygon.ofLoops` finds the reference point: it steps from a vertex into the wedge to the left
of the two edges there, less far than the nearest other edge.
-/

namespace SphereSearch

/-- A point and whether it lies inside. -/
structure ReferencePoint where
  /-- The point. -/
  point : Point
  /-- Whether it lies inside. -/
  contained : Bool

/-- The reference point of a shape without interior. -/
def ReferencePoint.outside : ReferencePoint := ⟨Point.north, false⟩

/-! ## The inside of a corner -/

/-- The direction in which a great circle leaves `v` for `q`, unless the points are too close
together or opposite. -/
def Point.tangentToward? (v q : Point) : Option Point :=
  let t := (Point.circleNormal v q).cross v
  if t.norm2 > 1e-30 then some t.normalize else none

/-- The direction that halves the wedge to the left of the edges at a corner.  Where they run
straight on, it is at a right angle to both; where they fold back on each other, there is no
wedge. -/
def Loop.Corner.bisector? (c : Loop.Corner) : Option Point := do
  let toAfter ← c.vertex.tangentToward? c.after
  let toBefore ← c.vertex.tangentToward? c.before
  let sum := toAfter + toBefore
  if sum.norm2 < 1e-20 then
    return c.vertex.cross toAfter
  let turn := (toAfter.cross toBefore).dot c.vertex
  if turn.abs < 1e-15 then none
  else if turn > 0.0 then return sum.normalize
  else return -sum.normalize

/-- How far a reference point may be from its vertex, in radians. -/
def maxReferenceStep : Float := 1e-3

/-- The point a step away from a corner along its bisector: half as far as the nearest of the
given edges, unless one of them is at the corner. -/
def Loop.Corner.inside? (c : Loop.Corner) (others : List Edge) : Option Point := do
  let bisector ← c.bisector?
  let clearance := others.foldl (fun d e => min d (e.distance c.vertex)) Chord.infinity
  if clearance.isZero then none
  else
    let step := Binary64.minNum (0.5 * clearance.radians) maxReferenceStep
    return (c.vertex.scale step.cos + bisector.scale step.sin).normalize

/-! ## Polygons -/

/-- Loops of vertices with the reference point that tells their inside. -/
structure Polygon where
  /-- The loops, each with the interior on its left. -/
  loops : List Loop
  /-- A point known to be inside, or known to be outside. -/
  reference : ReferencePoint

namespace Polygon

/-- The polygon without points. -/
def empty : Polygon := ⟨[], ReferencePoint.outside⟩

/-- The whole sphere. -/
def full : Polygon := ⟨[], ⟨Point.north, true⟩⟩

/-- The fault of the loop at a position. -/
def loopFault? (l : Loop) (index : Nat) : Option GeometryError :=
  if l.size < 3 then some (.loopTooShort index l.size) else unitLengthFault? l

/-- The edges of all loops, less those that meet vertex `i` of loop `k`. -/
def edgesApart (loops : List Loop) (k i : Nat) : List Edge :=
  loops.zipIdx.flatMap fun (l, index) => if index = k then l.edgesApart i else l.edges

/-- A point inside the loops: the first that a corner gives. -/
def insidePoint? (loops : List Loop) : Option Point :=
  loops.zipIdx.findSome? fun (l, k) =>
    (List.range l.size).findSome? fun i => do
      let corner ← l.corner? i
      corner.inside? (edgesApart loops k i)

/-- The polygon with the given loops.  The first faulty loop is reported, and after that the
lack of a corner with an inside; no loops at all make the empty polygon. -/
def ofLoops (loops : List Loop) : Except GeometryError Polygon :=
  match loops.zipIdx.findSome? fun (l, index) => loopFault? l index with
  | some fault => .error fault
  | none =>
    if loops.isEmpty then .ok empty
    else match insidePoint? loops with
      | some p => .ok ⟨loops, ⟨p, true⟩⟩
      | none => .error .noInteriorWedge

/-- Whether no point is inside. -/
def isEmpty (p : Polygon) : Bool := p.loops.isEmpty && !p.reference.contained

/-- Whether every point is inside. -/
def isFull (p : Polygon) : Bool := p.loops.isEmpty && p.reference.contained

/-- The number of edges, which is the number of vertices. -/
def edgeCount (p : Polygon) : Nat := p.loops.foldr (fun l n => l.size + n) 0

/-- Edge `e`, counted through all loops. -/
def edge? (p : Polygon) (e : Nat) : Option Edge := Loop.edgeAt? p.loops e

/-- All edges in order. -/
def edges (p : Polygon) : List Edge := p.loops.flatMap Loop.edges

/-- Whether a point is inside: by the parity of crossings between it and the reference
point. -/
def contains (p : Polygon) (q : Point) : Bool :=
  p.reference.contained ^^ p.reference.point.crossesOdd q p.edges

end Polygon

end SphereSearch
