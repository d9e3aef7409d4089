import SphereSearch.Grid.CellId
import SphereSearch.Shape.Basic

/-!
# Cells of an index

An index cell lists the shapes that have anything to do with a cell of the grid: those with an
edge near it, and those whose interior holds its anchor.
-/

namespace SphereSearch

/-- An edge together with its place among the shapes. -/
structure EdgeRef where
  /-- The number of the shape. -/
  shapeId : Nat
  /-- The number of the edge in its shape. -/
  edgeId : Nat
  /-- The edge itself. -/
  edge : Edge

/-- Every edge of the shapes, shape after shape, with the shapes numbered from zero. -/
def EdgeRef.all (shapes : List Shape) : List EdgeRef :=
  shapes.zipIdx.flatMap fun (s, shapeId) =>
    s.edges.zipIdx.map fun (e, edgeId) => ⟨shapeId, edgeId, e⟩

/-- The part of a shape that concerns one cell. -/
structure ClippedShape where
  /-- The number of the shape. -/
  shapeId : Nat
  /-- Whether the shape's interior holds the anchor of the cell. -/
  containsAnchor : Bool
  /-- The shape's edges that may meet the cell, ascending. -/
  edges : List Nat
deriving DecidableEq

/-- A cell of the grid with what the index keeps of the shapes there. -/
structure IndexCell where
  /-- The cell. -/
  id : CellId
  /-- The shapes that concern it, by ascending number. -/
  clipped : List ClippedShape
deriving DecidableEq

namespace IndexCell

/-- The number of edges of all clipped shapes. -/
def edgeCount (c : IndexCell) : Nat := c.clipped.foldr (fun s n => s.edges.length + n) 0

/-- The entry of a shape among those from `lo` up to `hi`, which are ascending. -/
def search (entries : Array ClippedShape) (shapeId : Int) (lo hi : Nat) : Option ClippedShape :=
  if h : lo < hi ∧ hi ≤ entries.size then
    let middle := lo + (hi - lo) / 2
    have _ : middle < entries.size := by omega
    if (entries[middle].shapeId : Int) = shapeId then some entries[middle]
    else if (entries[middle].shapeId : Int) < shapeId then search entries shapeId (middle + 1) hi
    else search entries shapeId lo middle
  else none
termination_by hi - lo

/-- The entry of a shape, found by binary search. -/
def find? (c : IndexCell) (shapeId : Int) : Option ClippedShape :=
  search c.clipped.toArray shapeId 0 c.clipped.length

end IndexCell

end SphereSearch
