import SphereSearch.Search.Target

/-!
# Visiting the shapes around a target

The shapes whose interior holds a target are shown to a visitor one by one, in the order in which
they are found and as often.  The visitor may ask to stop, and no loop goes on then.  A visitor that
collects a limited number of shapes stops as soon as it has them.
-/

namespace SphereSearch

variable {α σ : Type}

/-- Shows the elements of a list to a visitor, which keeps a state and tells whether to go on, until
it does not want to go on.  The result tells the same. -/
def visitAll (visit : σ → α → σ × Bool) : σ → List α → σ × Bool
  | s, [] => (s, true)
  | s, a :: rest =>
    let next := visit s a
    if next.2 then visitAll visit next.1 rest else next

namespace Index

/-- Shows the shapes of an index cell whose interior holds a point. -/
def visitHolding (x : Index) (visit : σ → Nat → σ × Bool) (cell : IndexCell) (p : Point) (s : σ) :
    σ × Bool :=
  let anchor := cell.id.anchor
  visitAll (fun s clipped =>
    if !(x.shapes[clipped.shapeId]?).any Shape.hasInterior then (s, true)
    else if clipped.containsAnchor ^^ anchor.crossesOdd p (x.clippedEdges clipped) then
      visit s clipped.shapeId
    else (s, true)) s cell.clipped

/-- Shows the shapes of an index cell with an interior. -/
def visitRegional (x : Index) (visit : σ → Nat → σ × Bool) (cell : IndexCell) (s : σ) : σ × Bool :=
  visitAll (fun s clipped =>
    if (x.shapes[clipped.shapeId]?).any Shape.hasInterior then visit s clipped.shapeId
    else (s, true)) s cell.clipped

/-- Shows the shapes whose interior holds a point. -/
def visitAt (x : Index) (visit : σ → Nat → σ × Bool) (s : σ) (p : Point) : σ × Bool :=
  match x.locatePoint? p with
  | some cell => x.visitHolding visit cell p s
  | none => (s, true)

/-- Shows the shapes whose interior holds a cell, approximately. -/
def visitAround (x : Index) (visit : σ → Nat → σ × Bool) (s : σ) (c : Cell) : σ × Bool :=
  match x.locate c.id with
  | .indexed position =>
    match x.cells[position]? with
    | some cell => x.visitHolding visit cell c.center s
    | none => (s, true)
  | .subdivided =>
    match x.cells[x.seek c.id.rangeMin]? with
    | some cell => x.visitRegional visit cell s
    | none => (s, true)
  | .disjoint => (s, true)

/-- Shows the shapes whose interior holds the start of a chain of edges of another shape.  A shape
without edges only has a point to start from if it is inside everywhere. -/
def visitShape (x : Index) (visit : σ → Nat → σ × Bool) (s : σ) (shape : Shape) : σ × Bool :=
  match shape.chainStarts with
  | [] => if shape.reference.contained then x.visitAt visit s shape.reference.point else (s, true)
  | starts => visitAll (x.visitAt visit) s starts

end Index

namespace Search

/-- Shows the shapes of an index whose interior holds a part of the target. -/
def Target.visitContaining (t : Target) (x : Index) (visit : σ → Nat → σ × Bool) (s : σ) :
    σ × Bool :=
  match t with
  | site (.point p) => x.visitAt visit s p
  | site (.edge e) => x.visitAt visit s ((e.start.midpoint? e.stop).getD e.start)
  | site (.cell c) => x.visitAround visit s c
  | index t => visitAll (x.visitShape visit) s t.index.shapes.toList

/-- Collects different numbers until there are `limit` of them. -/
def collectId (limit : Nat) (ids : List Nat) (id : Nat) : List Nat × Bool :=
  let ids := insertId id ids
  (ids, ids.length < limit)

/-- The shapes of an index whose interior holds a part of the target, collected one by one. -/
def Target.collectContaining (t : Target) (x : Index) (limit : Nat) : List Nat :=
  if limit = 0 then [] else (t.visitContaining x (collectId limit) []).1

end Search

end SphereSearch
