import SphereSearch.Bisection
import SphereSearch.Index.Decomposition

/-!
# The index

An index is built once from a list of shapes, which are numbered by their place in it, and
never changes.  Its cells are disjoint and sorted, so that everything inside a cell of the grid
is found by binary search: `seek` gives the first index cell at or above a cell, `locate` tells
how a cell lies to the index cells.
-/

namespace SphereSearch

/-- Shapes with the cells that tell where they are. -/
structure Index where
  /-- The shapes. -/
  shapes : Array Shape
  /-- The settings it was built with. -/
  settings : Index.Settings
  /-- Every edge of the shapes, in order. -/
  edges : List EdgeRef
  /-- The index cells, ascending and disjoint. -/
  cells : Array IndexCell
  /-- A few regions that cover all index cells. -/
  covering : List Region

namespace Index

/-- The index whose geometric questions are answered by `clipping`. -/
def buildWith (clipping : Clipping) (shapes : List Shape) (settings : Settings) : Index :=
  let cells := clipping.cells settings shapes
  { shapes := shapes.toArray
    settings := settings
    edges := EdgeRef.all shapes
    cells := cells.toArray
    covering := Region.covering cells }

/-- The index of the given shapes. -/
def build (shapes : List Shape) (settings : Settings) : Index :=
  buildWith Clipping.geometric shapes settings

/-- The index without shapes. -/
def empty : Index := build [] Settings.default

instance : Inhabited Index := ⟨empty⟩

/-! ## Contents -/

/-- The number of edges of all shapes. -/
def edgeCount (x : Index) : Nat := x.edges.length

/-- The number of edges of all shapes, but `limit` if there are more. -/
def edgeCountUpTo (x : Index) (limit : Nat) : Nat := min x.edgeCount limit

theorem edgeCountUpTo_succ_le_iff {x : Index} {n : Nat} :
    x.edgeCountUpTo (n + 1) ≤ n ↔ x.edgeCount ≤ n := by
  unfold edgeCountUpTo
  omega

/-- The shape with a number. -/
def shape? (x : Index) (id : Int) : Option Shape :=
  if id < 0 then none else x.shapes[id.toNat]?

/-- The edge with a number of a shape with a number. -/
def edge? (x : Index) (shapeId edgeId : Nat) : Option Edge := do
  let s ← x.shapes[shapeId]?
  s.edge? edgeId

/-- The edges that an index cell lists. -/
def edgesOf (x : Index) (cell : IndexCell) : List EdgeRef :=
  cell.clipped.flatMap fun s =>
    s.edges.filterMap fun e => (x.edge? s.shapeId e).map (⟨s.shapeId, e, ·⟩)

/-- The edges that a clipped shape lists. -/
def clippedEdges (x : Index) (s : ClippedShape) : List Edge :=
  s.edges.filterMap (x.edge? s.shapeId)

/-! ## Navigation -/

/-- The position of the first index cell that is not below `target`. -/
def seek (x : Index) (target : CellId) : Nat :=
  bisect (·.id < target) x.cells 0 x.cells.size

/-- How a cell of the grid lies to the index cells. -/
inductive Location where
  /-- The index cell at this position contains it. -/
  | indexed (position : Nat)
  /-- It contains index cells. -/
  | subdivided
  /-- It meets no index cell. -/
  | disjoint
deriving DecidableEq, Repr

/-- How `target` lies to the index cells.  If it contains any, it contains the first one at or
above its least leaf; if one contains it, it is that one or the one before. -/
def locate (x : Index) (target : CellId) : Location :=
  let position := x.seek target.rangeMin
  let fromBelow : Location :=
    match x.cells[position - 1]? with
    | some cell =>
      if 0 < position ∧ cell.id.rangeMax ≥ target then .indexed (position - 1) else .disjoint
    | none => .disjoint
  match x.cells[position]? with
  | some cell =>
    if cell.id ≥ target ∧ cell.id.rangeMin ≤ target then .indexed position
    else if cell.id ≤ target.rangeMax then .subdivided
    else fromBelow
  | none => fromBelow

/-- The index cell that holds a point. -/
def locatePoint? (x : Index) (p : Point) : Option IndexCell :=
  match x.locate (CellId.ofPoint p) with
  | .indexed position => x.cells[position]?
  | _ => none

/-! ## Extent -/

/-- A cap that holds every edge.  A full polygon makes it the whole sphere; otherwise it is
centred on the sum of the vertices, or on the first of them if they cancel. -/
def cap (x : Index) : Cap :=
  if x.shapes.any Shape.isFull then Cap.full
  else
    let sum := Point.sum (x.edges.map (·.edge.start))
    let center? :=
      if sum.norm2 > 0.0 then some sum.normalize else x.edges.head?.map (·.edge.start)
    match center? with
    | none => Cap.empty
    | some center =>
      x.edges.foldl (fun cap r => (cap.addPoint r.edge.start).addPoint r.edge.stop)
        (Cap.ofPoint center)

end Index

end SphereSearch
