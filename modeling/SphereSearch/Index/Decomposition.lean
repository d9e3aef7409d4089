import SphereSearch.Grid.Cell
import SphereSearch.Index.Cell
import SphereSearch.Index.Settings

/-!
# How the sphere is divided

Each face starts with all edges, listed shape by shape.  A cell keeps the edges of its parent that
may meet it, and drops the shapes of which it keeps none; if it keeps more edges than the settings
allow, and the level permits, its quarters are treated in the same way.  Otherwise division stops
there (`Clipping.leaves`).  The cell then becomes an index cell: it records, of all shapes in
order, the edges that it keeps and whether the interior holds its anchor.  A cell that concerns no
shape is left out.

Two geometric questions are asked on the way: whether an edge may meet a cell, and whether the
interior of a shape holds the anchor of a cell.  They are parameters (`Clipping`), since the
form of the result does not hang on their answers.
-/

namespace SphereSearch

/-- Edges of one shape that may meet a cell. -/
structure Candidate where
  /-- The number of the shape. -/
  shapeId : Nat
  /-- The edges, by ascending number. -/
  edges : List EdgeRef

namespace Candidate

/-- All edges of a shape, if it has any. -/
def ofShape? (s : Shape) (shapeId : Nat) : Option Candidate :=
  if s.edgeCount > 0 then
    some ⟨shapeId, s.edges.zipIdx.map fun (e, edgeId) => ⟨shapeId, edgeId, e⟩⟩
  else none

/-- The shapes that have edges, with all of them. -/
def all (shapes : List Shape) : List Candidate :=
  shapes.zipIdx.filterMap fun (s, shapeId) => ofShape? s shapeId

/-- The edges with a property, if there are any. -/
def restrict? (p : EdgeRef → Bool) (d : Candidate) : Option Candidate :=
  let edges := d.edges.filter p
  if edges.isEmpty then none else some ⟨d.shapeId, edges⟩

/-- The number of edges of all candidates. -/
def edgeCount (candidates : List Candidate) : Nat :=
  candidates.foldr (fun d n => d.edges.length + n) 0

end Candidate

/-- The geometric questions that a decomposition asks. -/
structure Clipping where
  /-- Whether an edge may meet a cell. -/
  mayMeet : Cell → Edge → Bool
  /-- Whether the interior of a shape holds the anchor of a cell. -/
  holdsAnchor : Shape → CellId → Bool

namespace Clipping

/-- The answers of spherical geometry. -/
def geometric : Clipping where
  mayMeet cell e := cell.mayMeet e
  holdsAnchor s id := s.hasInterior && s.contains id.anchor

/-- The candidates that a cell keeps: of each shape the edges that may meet the cell, if there are
any. -/
def narrow (c : Clipping) (id : CellId) (candidates : List Candidate) : List Candidate :=
  let cell := Cell.ofId id
  candidates.filterMap (Candidate.restrict? fun r => c.mayMeet cell r.edge)

/-- The cells inside a cell at which division stops, in ascending order, with the candidates that
they keep.  The cell may be split `levels` times. -/
def leavesIn (c : Clipping) (maxEdges : Nat) :
    (levels : Nat) → CellId → List Candidate → List (CellId × List Candidate)
  | 0, id, candidates => [(id, c.narrow id candidates)]
  | levels + 1, id, candidates =>
    let kept := c.narrow id candidates
    if Candidate.edgeCount kept > maxEdges then
      id.children.flatMap fun child => c.leavesIn maxEdges levels child kept
    else [(id, kept)]

/-- All cells at which division stops. -/
def leaves (c : Clipping) (settings : Index.Settings) (shapes : List Shape) :
    List (CellId × List Candidate) :=
  let candidates := Candidate.all shapes
  (List.range CellId.faceCount).flatMap fun face =>
    c.leavesIn settings.maxEdges settings.maxLevel (CellId.ofFace face) candidates

/-- What a cell records of one shape with the given edges, if anything. -/
def clipTo? (c : Clipping) (id : CellId) (s : Shape) (shapeId : Nat) (edges : List Nat) :
    Option ClippedShape :=
  let inside := c.holdsAnchor s id
  if edges.isEmpty && !inside then none else some ⟨shapeId, inside, edges⟩

/-- What a cell records of the shapes.  Shapes and candidates are gone through side by side: if
the next candidate belongs to the shape it is taken, and otherwise the shape has no edges. -/
def entries (c : Clipping) (id : CellId) : List (Shape × Nat) → List Candidate → List ClippedShape
  | [], _ => []
  | (s, shapeId) :: shapes, [] => (c.clipTo? id s shapeId []).toList ++ c.entries id shapes []
  | (s, shapeId) :: shapes, next :: candidates =>
    if next.shapeId = shapeId then
      (c.clipTo? id s shapeId (next.edges.map (·.edgeId))).toList ++ c.entries id shapes candidates
    else (c.clipTo? id s shapeId []).toList ++ c.entries id shapes (next :: candidates)

/-- The index cell for a cell that is not split, if any shape concerns it. -/
def record? (c : Clipping) (shapes : List Shape) (id : CellId) (candidates : List Candidate) :
    Option IndexCell :=
  let clipped := c.entries id shapes.zipIdx candidates
  if clipped.isEmpty then none else some ⟨id, clipped⟩

/-- All index cells in ascending order. -/
def cells (c : Clipping) (settings : Index.Settings) (shapes : List Shape) : List IndexCell :=
  (c.leaves settings shapes).filterMap fun (id, candidates) => c.record? shapes id candidates

end Clipping

/-! ## Covering -/

/-- A cell of the grid with its place among the index cells, if it is one of them. -/
structure Region where
  /-- The cell. -/
  id : CellId
  /-- Its position among the index cells; without one, it contains several of them. -/
  position? : Option Nat
deriving DecidableEq

/-- The region that covers consecutive index cells of one face: the cell itself if there is
only one, and otherwise the smallest cell that contains the first and the last. -/
def Region.around? : List (IndexCell × Nat) → Option Region
  | [] => none
  | [(cell, position)] => some ⟨cell.id, some position⟩
  | (first, _) :: next :: rest =>
    (first.id.commonAncestor? ((next :: rest).getLast (by simp)).1.id).map (⟨·, none⟩)

/-- A few regions that cover all index cells: at most one for each face. -/
def Region.covering (cells : List IndexCell) : List Region :=
  (List.range CellId.faceCount).filterMap fun face =>
    around? (cells.zipIdx.filter fun (cell, _) => cell.id.face = face)

end SphereSearch
