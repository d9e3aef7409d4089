import SphereSearch.Search.Result
import SphereSearch.Search.Settings

/-!
# Collecting the best results

A collector keeps the least results offered to it, up to its capacity, and the distance below
which a further one can matter.  The distance starts at a given one and shrinks once the
collector is full: without an allowance for error it is set just above the worst result kept,
so that a result at the same distance can still replace one that comes later in the order; with
an allowance it is set that much below.

Results are kept in one of three ways.  A collector of one result holds it alone, one without a
limit on their number holds everything as it came and sorts it at the end, and any other one
holds an ascending list.
-/

namespace SphereSearch.Search

/-- What a collector keeps. -/
inductive Kept where
  /-- The least result offered, if any was. -/
  | one (result? : Option Result)
  /-- Every result offered, the latest first. -/
  | every (results : List Result)
  /-- The least results offered, ascending and different. -/
  | ranked (results : List Result)

namespace Kept

/-- How so many results are kept, before there are any. -/
def empty (capacity : Nat) : Kept :=
  if capacity = 1 then one none
  else if capacity = unlimited then every []
  else ranked []

/-- The results kept, ascending and different. -/
def results : Kept → List Result
  | one result? => result?.toList
  | every results => Result.sort results
  | ranked results => results

end Kept

/-- The best results so far, and what could still improve them. -/
structure Collector where
  /-- How many results are kept. -/
  capacity : Nat
  /-- How much closer a result may be that is passed over. -/
  maxError : Chord
  /-- The distance below which results are wanted. -/
  limit : Chord
  /-- What is kept of the results. -/
  kept : Kept

namespace Collector

/-- The collector that has seen nothing. -/
def empty (capacity : Nat) (maxError limit : Chord) : Collector :=
  ⟨capacity, maxError, limit, Kept.empty capacity⟩

/-- The results kept, ascending and different. -/
def results (c : Collector) : List Result := c.kept.results

/-- The limit for a full collector with the given worst distance. -/
def cutoff (maxError worst : Chord) : Chord :=
  if maxError = Chord.zero then worst.successor else worst - maxError

/-- Keeps something else, of which one result is the worst. -/
def narrow (c : Collector) (kept : Kept) (worst : Result) : Collector :=
  { c with kept := kept, limit := cutoff c.maxError worst.distance }

/-- Keeps a result if it is among the best.  Results beyond the capacity are dropped. -/
def add (c : Collector) (r : Result) : Collector :=
  match c.kept with
  | .one none => c.narrow (.one (some r)) r
  | .one (some best) => if compare best r ≠ .gt then c else c.narrow (.one (some r)) r
  | .every results => { c with kept := .every (r :: results) }
  | .ranked results =>
    let more := Result.insert r results
    if more.length < c.capacity then { c with kept := .ranked more }
    else
      let best := if more.length > c.capacity then more.dropLast else more
      match best.getLast? with
      | some worst => c.narrow (.ranked best) worst
      | none => { c with kept := .ranked best }

end Collector

end SphereSearch.Search
