import SphereSearch.Search.Target

/-!
# Queries

A query is an index with settings for searching it.  It answers which edges are closest to a
target, how far away the closest is, and whether anything is closer than a given distance.
-/

namespace SphereSearch.Search

/-- An index to be searched with given settings. -/
structure Query where
  /-- The index. -/
  index : Index
  /-- What is asked for. -/
  settings : Settings
  /-- The number of edges up to which every edge is measured. -/
  bruteForceThreshold : Nat

/-- A limit for all distances that may, up to the error of their measurement, be below the
given one. -/
def conservative (limit : Chord) : Chord := limit.widen limit.edgeError

namespace Query

/-- The query of an index with default settings. -/
def ofIndex (x : Index) : Query := ⟨x, Settings.default, unlimited⟩

/-- The closest edges, in ascending order. -/
def closestEdges (q : Query) (t : Target) : List Result :=
  t.search q.index q.settings q.bruteForceThreshold

/-- The closest edge, or `Result.none`. -/
def closestEdge (q : Query) (t : Target) : Result :=
  let settings := { q.settings with maxResults := 1, maxResults_pos := Nat.one_pos }
  (t.search q.index settings q.bruteForceThreshold).headD Result.none

/-- The distance of the closest edge, infinite if there is none. -/
def distance (q : Query) (t : Target) : Chord := (q.closestEdge t).distance

/-- Whether anything is closer than the limit.  The first result is good enough, so that any
error is allowed. -/
def anyCloser (q : Query) (t : Target) (limit : Chord) : Bool :=
  let settings :=
    { q.settings with
      maxResults := 1
      maxResults_pos := Nat.one_pos
      maxDistance := limit
      maxError := Chord.straight }
  !(t.search q.index settings q.bruteForceThreshold).isEmpty

/-- Whether the distance is below the limit. -/
def isDistanceLess (q : Query) (t : Target) (limit : Chord) : Bool := q.anyCloser t limit

/-- Whether the distance is at most the limit. -/
def isDistanceLessOrEqual (q : Query) (t : Target) (limit : Chord) : Bool :=
  q.anyCloser t limit.successor

/-- Whether the true distance may be below the limit. -/
def isConservativeDistanceLess (q : Query) (t : Target) (limit : Chord) : Bool :=
  q.anyCloser t (conservative limit)

/-- Whether the true distance may be at most the limit. -/
def isConservativeDistanceLessOrEqual (q : Query) (t : Target) (limit : Chord) : Bool :=
  q.anyCloser t (conservative limit).successor

/-- The point of the result's edge that is closest to `p`; `p` itself if there is no such
edge. -/
def project (q : Query) (p : Point) (r : Result) : Point :=
  if r.shapeId < 0 || r.edgeId < 0 then p
  else match q.index.edge? r.shapeId.toNat r.edgeId.toNat with
    | some e => e.project p
    | none => p

end Query

end SphereSearch.Search
