import SphereSearch.Sphere.Edge

/-!
# Edges that cross

Two edges cross properly when the ends of each lie strictly on different sides of the other.
They touch when they share an end or when an end of one lies on the other.  Proper crossings
decide the distance between edges, which is zero there and otherwise taken at an end, and
the parity of a path's crossings, which tells on which side of a boundary it ends.
-/

namespace SphereSearch

/-- How two edges meet. -/
inductive Crossing where
  /-- They cross at a point interior to both. -/
  | proper
  /-- They have an end of one of them in common. -/
  | touching
  /-- They do not meet. -/
  | none
deriving DecidableEq, Repr

namespace Edge

/-- The four tests between the ends of each edge and the other edge. -/
def endTests (e f : Edge) : List Closer :=
  [f.closerPoint? e.start, f.closerPoint? e.stop, e.closerPoint? f.start, e.closerPoint? f.stop]

/-- The crossing of edges that have three of their ends on one great circle. -/
def flatCrossing (e f : Edge) : Crossing :=
  if (Closer.chain (e.endTests f)).distance.isZero then .touching else .none

/-- How two edges meet.  The turns at the corners of the quadrilateral `a c b d` all have
the same sign exactly if the edges `ab` and `cd`, its diagonals, cross. -/
def crossing (e f : Edge) : Crossing :=
  let a := e.start
  let b := e.stop
  let c := f.start
  let d := f.stop
  let acb := -Point.orientation a b c
  let bda := Point.orientation a b d
  let cbd := -Point.orientation c d b
  let dac := Point.orientation c d a
  if a.same c || a.same d || b.same c || b.same d then .touching
  else if a.same b || c.same d then .none
  else if acb = 0 || bda = 0 then e.flatCrossing f
  else if acb ≠ bda then .none
  else if cbd = 0 || dac = 0 then e.flatCrossing f
  else if cbd ≠ acb || dac ≠ acb then .none
  else .proper

/-- Whether two edges cross at a point interior to both. -/
def crosses (e f : Edge) : Bool := e.crossing f = .proper

/-- The distance between two edges, if it is below a given one.  Nothing is below zero. -/
def closerEdge? (e f : Edge) : Closer := fun least =>
  if least.isZero then none
  else if e.crosses f then some Chord.zero
  else Closer.chain (e.endTests f) least

end Edge

/-! ## Parity of crossings -/

/-- The path from `p` to `q`: one edge, or two if the points are more than a right angle
apart.  The second case turns at the middle of the points, or, for opposite points, at a
right angle to them. -/
def Point.path (p q : Point) : List Edge :=
  if p.dot q ≥ 0.0 then [⟨p, q⟩]
  else
    let sum := p + q
    let turn := if sum.norm2 > 1e-20 then sum.normalize else p.perpendicular
    [⟨p, turn⟩, ⟨turn, q⟩]

/-- Whether a path crosses an edge an odd number of times. -/
def Edge.crossedBy (e : Edge) (path : List Edge) : Bool :=
  path.foldl (fun odd leg => odd ^^ leg.crosses e) false

/-- Whether the path from `p` to `q` crosses the given edges an odd number of times. -/
def Point.crossesOdd (p q : Point) (edges : List Edge) : Bool :=
  let path := p.path q
  edges.foldl (fun odd e => odd ^^ e.crossedBy path) false

end SphereSearch
