import SphereSearch.Search.Request

/-!
# Points, edges and cells as targets

A search may look near a point, an edge or a cell.  Their distances are those of spherical
geometry, and cells are bounded by their caps.

Which shapes hold a target in their interior is read off a single index cell: for each clipped
shape it records whether the anchor of the cell is inside, and each clipped edge on the way
from the anchor to the point switches sides.  For a cell this is an approximation: where
several index cells lie inside it, every shape with an interior in the first of them counts.
-/

namespace SphereSearch

namespace Index

/-- The shapes with an interior that an index cell lists. -/
def regional (x : Index) (cell : IndexCell) : List ClippedShape :=
  cell.clipped.filter fun s => (x.shapes[s.shapeId]?).any Shape.hasInterior

/-- The shapes of an index cell whose interior holds a point. -/
def holding (x : Index) (cell : IndexCell) (p : Point) : List Nat :=
  let anchor := cell.id.anchor
  let inside := (x.regional cell).filter fun s =>
    s.containsAnchor ^^ anchor.crossesOdd p (x.clippedEdges s)
  inside.map (·.shapeId)

/-- The shapes whose interior holds a point. -/
def shapesAt (x : Index) (p : Point) : List Nat :=
  match x.locatePoint? p with
  | some cell => x.holding cell p
  | none => []

/-- The shapes whose interior holds a cell, approximately. -/
def shapesAround (x : Index) (c : Cell) : List Nat :=
  match x.locate c.id with
  | .indexed position =>
    match x.cells[position]? with
    | some cell => x.holding cell c.center
    | none => []
  | .subdivided =>
    match x.cells[x.seek c.id.rangeMin]? with
    | some cell => (x.regional cell).map (·.shapeId)
    | none => []
  | .disjoint => []

end Index

namespace Search

/-- A simple target. -/
inductive Site where
  /-- A point. -/
  | point (p : Point)
  /-- An edge. -/
  | edge (e : Edge)
  /-- A cell of the grid. -/
  | cell (c : Cell)

namespace Site

/-- A cap around an edge; an edge between opposite points may lie anywhere. -/
def capOfEdge (e : Edge) : Cap :=
  let sum := e.start + e.stop
  if sum.norm2 == 0.0 then Cap.full
  else
    let center := sum.normalize
    let radius := max (Chord.between center e.start) (Chord.between center e.stop)
    ⟨center, radius.widen radius.pointError⟩

/-- What a search can ask of the target. -/
def measure : Site → Measure
  | point p =>
    { cap := Cap.ofPoint p
      bruteForceSize := 120
      toEdge := fun e => e.closerPoint? p
      toCell := fun c => Closer.ofChord (c.cap.distanceToPoint p) }
  | edge f =>
    { cap := capOfEdge f
      bruteForceSize := 60
      toEdge := fun e => f.closerEdge? e
      toCell := fun c => Closer.ofChord (c.cap.distanceToEdge f) }
  | cell d =>
    { cap := d.cap
      bruteForceSize := 30
      toEdge := fun e => Closer.ofChord (d.distanceToEdge e)
      toCell := fun c => Closer.ofChord (d.cap.distanceToCap c.cap) }

/-- The shapes of an index whose interior holds the target; for an edge, its middle. -/
def shapesAround (s : Site) (x : Index) : List Nat :=
  match s with
  | point p => x.shapesAt p
  | edge e => x.shapesAt ((e.start.midpoint? e.stop).getD e.start)
  | cell c => x.shapesAround c

end Site

/-- Adds a number to an ascending list, unless it is there already. -/
def insertId (id : Nat) : List Nat → List Nat
  | [] => [id]
  | other :: rest =>
    if id < other then id :: other :: rest
    else if id = other then other :: rest
    else other :: insertId id rest

/-- Adds a number to an ascending list that is shorter than the limit. -/
def insertBelow (limit : Nat) (sorted : List Nat) (id : Nat) : List Nat :=
  if sorted.length < limit then insertId id sorted else sorted

/-- The first different numbers of a list, up to a limit, in ascending order. -/
def firstIds (limit : Nat) (ids : List Nat) : List Nat := ids.foldl (insertBelow limit) []

/-- What a search for the closest edges to a simple target starts from. -/
def Site.request (s : Site) (x : Index) (settings : Settings) (bruteForceThreshold : Nat) :
    Request :=
  { index := x
    settings := settings
    measure := s.measure
    containing := fun limit => firstIds limit (s.shapesAround x)
    isApproximate := false
    bruteForceThreshold := bruteForceThreshold }

/-- The closest edges to a simple target. -/
def Site.search (s : Site) (x : Index) (settings : Settings) (bruteForceThreshold : Nat) :
    List Result :=
  (s.request x settings bruteForceThreshold).run

end Search

end SphereSearch
