import SphereSearch.Shape.Polygon

/-!
# Shapes

What an index holds: points, a polyline, or a polygon.  Each is a list of edges numbered from
zero; a single point is an edge from itself to itself.  Only polygons have an interior.
-/

namespace SphereSearch

/-- A geometric object. -/
inductive Shape where
  /-- Single points. -/
  | points (points : Array Point)
  /-- A chain of edges through the vertices. -/
  | polyline (vertices : Array Point)
  /-- A region with a boundary. -/
  | polygon (polygon : Polygon)

namespace Shape

/-! ## Construction -/

/-- The shape of the given points, all of unit length. -/
def ofPoints (points : Array Point) : Except GeometryError Shape :=
  match unitLengthFault? points with
  | some fault => .error fault
  | none => .ok (.points points)

/-- The polyline through the given vertices, all of unit length. -/
def ofVertices (vertices : Array Point) : Except GeometryError Shape :=
  match unitLengthFault? vertices with
  | some fault => .error fault
  | none => .ok (.polyline vertices)

/-- The polygon with the given loops. -/
def ofLoops (loops : List Loop) : Except GeometryError Shape :=
  (Polygon.ofLoops loops).map .polygon

/-! ## Edges -/

/-- The dimension of the shape. -/
def dimension : Shape → Nat
  | points _ => 0
  | polyline _ => 1
  | polygon _ => 2

/-- Whether the shape can have points inside. -/
def hasInterior (s : Shape) : Bool := s.dimension = 2

/-- The number of edges. -/
def edgeCount : Shape → Nat
  | points ps => ps.size
  | polyline vs => vs.size - 1
  | polygon p => p.edgeCount

/-- Edge `e`, if there is one. -/
def edge? : Shape → Nat → Option Edge
  | points ps, e => ps[e]?.map Edge.degenerate
  | polyline vs, e => do
    let start ← vs[e]?
    let stop ← vs[e + 1]?
    return ⟨start, stop⟩
  | polygon p, e => p.edge? e

/-- All edges in order. -/
def edges (s : Shape) : List Edge := (List.range s.edgeCount).filterMap s.edge?

/-- The first vertex of every chain of edges: each point, the start of a polyline with an
edge, and the first vertex of each loop. -/
def chainStarts : Shape → List Point
  | points ps => ps.toList
  | polyline vs => if vs.size ≥ 2 then vs[0]?.toList else []
  | polygon p => p.loops.filterMap (·[0]?)

/-! ## Interior -/

/-- A point and whether it is inside. -/
def reference : Shape → ReferencePoint
  | polygon p => p.reference
  | _ => ReferencePoint.outside

/-- Whether a point is inside; nothing is inside points and polylines. -/
def contains : Shape → Point → Bool
  | polygon p, q => p.contains q
  | _, _ => false

/-- Whether every point of the sphere is inside. -/
def isFull : Shape → Bool
  | polygon p => p.isFull
  | _ => false

end Shape

end SphereSearch
