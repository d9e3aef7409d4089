import SphereSearch.Sphere.Chord

/-!
# Results of a search

A result names an edge of a shape and its distance, or a shape whose interior holds the target.
Results are ordered by distance, then by shape, then by edge.
-/

namespace SphereSearch.Search

/-- An edge of an index with its distance to the target.  Edge `-1` stands for the interior of
the shape, and shape `-1` for no result at all. -/
structure Result where
  /-- The distance to the target. -/
  distance : Chord
  /-- The number of the shape. -/
  shapeId : Int
  /-- The number of the edge. -/
  edgeId : Int
deriving DecidableEq

namespace Result

/-- The answer of a search that finds nothing. -/
def none : Result := ⟨Chord.infinity, -1, -1⟩

/-- The shape whose interior holds the target. -/
def interior (shapeId : Int) : Result := ⟨Chord.zero, shapeId, -1⟩

/-- Whether this stands for no result. -/
def isNone (r : Result) : Bool := r.shapeId < 0

/-- Whether this stands for the interior of a shape. -/
def isInterior (r : Result) : Bool := r.shapeId ≥ 0 && r.edgeId < 0

instance : Ord Result where
  compare r s :=
    (compare r.distance s.distance).then
      ((compare r.shapeId s.shapeId).then (compare r.edgeId s.edgeId))

/-- The result for a reader: the distance, then the shape and the edge. -/
def text (r : Result) : String :=
  "(" ++ r.distance.text ++ ", " ++ toString r.shapeId ++ ":" ++ toString r.edgeId ++ ")"

/-- Adds a result to an ascending list, unless it is there already. -/
def insert (r : Result) : List Result → List Result
  | [] => [r]
  | s :: rest =>
    match compare r s with
    | .lt => r :: s :: rest
    | .eq => s :: rest
    | .gt => s :: insert r rest

/-- The results in ascending order, each once. -/
def sort (results : List Result) : List Result :=
  results.foldl (fun sorted r => insert r sorted) []

end Result

end SphereSearch.Search
