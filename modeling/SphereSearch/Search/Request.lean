import SphereSearch.Search.BestFirst
import SphereSearch.Search.Settings

/-!
# Requests

A request says what is searched for, where, and near what.  Running it takes the shapes around
the target first, if they count as results, then decides between brute force and the best-first
search, and whether the bounds on the distances of regions have to be taken with an error.
-/

namespace SphereSearch

namespace Search

/-- What a search starts from: settings, an index, a target, the shapes around the target, and
whether the target takes the allowance for error into account itself. -/
structure Request where
  /-- The index that is searched. -/
  index : Index
  /-- What is asked for. -/
  settings : Settings
  /-- What can be asked of the target. -/
  measure : Measure
  /-- The shapes whose interior holds the target; at most so many as are wanted. -/
  containing : (limit : Nat) → List Nat
  /-- Whether distances may be too large by the error allowed for. -/
  isApproximate : Bool
  /-- The number of edges up to which brute force is used, if the target permits it. -/
  bruteForceThreshold : Nat

namespace Request

/-- The collector that has seen the shapes around the target, if they count as results. -/
def interiors (q : Request) : Collector :=
  let empty := Collector.empty q.settings.maxResults q.settings.maxError q.settings.maxDistance
  if q.settings.includeInteriors then
    (q.containing q.settings.maxResults).foldl
      (fun found (id : Nat) => found.add (Result.interior id)) empty
  else empty

/-- Whether every edge is measured. -/
def usesBruteForce (q : Request) : Bool :=
  let threshold := min q.bruteForceThreshold q.measure.bruteForceSize
  q.settings.useBruteForce || q.index.edgeCountUpTo (threshold + 1) ≤ threshold

/-- What is subtracted from the bounds of an approximate target: the error, unless nothing
would be left of the limit, since then every region would seem to be at no distance. -/
def slack? (q : Request) (limit : Chord) : Option Chord :=
  if q.isApproximate &&
      (limit = Chord.infinity || Chord.zero < limit - q.settings.maxError) then
    some q.settings.maxError
  else none

/-- What stays the same during the search, given the limit that it starts from. -/
def plan (q : Request) (limit : Chord) : Plan :=
  { index := q.index
    measure := q.measure
    slack? := q.slack? limit
    once := !q.usesBruteForce && q.isApproximate && q.settings.maxResults > 1 }

/-- The closest edges, in ascending order. -/
def run (q : Request) : List Result :=
  if q.settings.maxDistance ≤ Chord.zero then []
  else
    let found := q.interiors
    if q.settings.includeInteriors && Plan.isDone found then found.results
    else
      let plan := q.plan found.limit
      (if q.usesBruteForce then plan.bruteForce found else plan.bestFirst found).results

end Request

end Search

end SphereSearch
