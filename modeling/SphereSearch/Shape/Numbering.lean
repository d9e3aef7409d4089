import SphereSearch.Bisection
import SphereSearch.Shape.Loop

/-!
# Looking edges up

The loops of a polygon number their edges through.  The number of the first edge of each loop is
kept in an ascending list, with the number of all edges at its end, so that binary search finds the
loop of an edge: the last one whose first edge does not come after it.
-/

namespace SphereSearch.Loop

/-- The number of the first edge of each loop, counted from `n`, and the number after the last
edge. -/
def offsets (n : Nat) : List Loop → List Nat
  | [] => [n]
  | l :: rest => n :: offsets (n + l.size) rest

/-- Edge `e` of several loops, found by binary search for its loop. -/
def lookUp? (loops : List Loop) (e : Nat) : Option Edge := do
  let sums := (offsets 0 loops).toArray
  let k := bisect (· ≤ e) sums 0 sums.size - 1
  let l ← loops[k]?
  let first ← sums[k]?
  edge? l (e - first)

end SphereSearch.Loop
