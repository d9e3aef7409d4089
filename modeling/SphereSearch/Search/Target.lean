import SphereSearch.Search.Site

/-!
# Targets

A target is a point, an edge, a cell, or the geometry of a whole index.  The distance to an
index is itself the result of a search in that index, for the edge or the cell at hand; it may
be given an error that it need not avoid.
-/

namespace SphereSearch.Search

/-- The geometry of an index as a target. -/
structure IndexTarget where
  /-- The index. -/
  index : Index
  /-- Whether the interiors of its polygons belong to the target. -/
  includeInteriors : Bool
  /-- By how much its distances may be too large. -/
  maxError : Chord

/-- What a search looks near. -/
inductive Target where
  /-- A point, an edge or a cell. -/
  | site (s : Site)
  /-- The geometry of an index. -/
  | index (t : IndexTarget)

namespace IndexTarget

/-- The index as a target whose distances are exact. -/
def exact (x : Index) (includeInteriors : Bool) : IndexTarget := ⟨x, includeInteriors, Chord.zero⟩

/-- The distance from the index to an edge or a cell, if it is below a given one. -/
def closer? (t : IndexTarget) (s : Site) : Closer := fun least =>
  let settings : Settings :=
    { Settings.default with
      maxResults := 1
      maxResults_pos := Nat.one_pos
      maxDistance := least
      maxError := t.maxError
      includeInteriors := t.includeInteriors }
  match s.search t.index settings unlimited with
  | [] => none
  | r :: _ => if r.isNone || r.distance ≥ least then none else some r.distance

/-- The points of the index that stand for it in another index: the start of every chain of
edges, and a point inside each shape that is inside everywhere. -/
def representatives (t : IndexTarget) : List Point :=
  t.index.shapes.toList.flatMap fun s =>
    match s.chainStarts with
    | [] => if s.reference.contained then [s.reference.point] else []
    | starts => starts

end IndexTarget

namespace Target

/-- What a search can ask of the target. -/
def measure : Target → Measure
  | site s => s.measure
  | index t =>
    { cap := t.index.cap
      bruteForceSize := 25
      toEdge := fun e => t.closer? (.edge e)
      toCell := fun c => t.closer? (.cell c) }

/-- The target with an error that its distances may have, if it is of a kind that can use
one. -/
def withMaxError? (t : Target) (maxError : Chord) : Option Target :=
  match t with
  | site _ => none
  | index t => some (.index { t with maxError := maxError })

/-- The shapes of an index whose interior holds a part of the target, at most `limit` of
them. -/
def containing (t : Target) (x : Index) (limit : Nat) : List Nat :=
  match t with
  | site s => firstIds limit (s.shapesAround x)
  | index t => firstIds limit (t.representatives.flatMap x.shapesAt)

/-- What a search for the closest edges to the target starts from.  A target that can use the
allowance for error gets it. -/
def request (t : Target) (x : Index) (settings : Settings) (bruteForceThreshold : Nat) :
    Request :=
  let relaxed? := if settings.maxError > Chord.zero then t.withMaxError? settings.maxError else none
  { index := x
    settings := settings
    measure := (relaxed?.getD t).measure
    containing := t.containing x
    isApproximate := relaxed?.isSome
    bruteForceThreshold := bruteForceThreshold }

/-- The closest edges to the target. -/
def search (t : Target) (x : Index) (settings : Settings) (bruteForceThreshold : Nat) :
    List Result :=
  (t.request x settings bruteForceThreshold).run

end Target

end SphereSearch.Search
