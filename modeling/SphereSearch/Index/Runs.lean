import SphereSearch.Bisection
import SphereSearch.Index.Decomposition

/-!
# Runs of index cells

Index cells are ascending, so that those of one face follow each other.  The regions that cover them
are found without going through all index cells: binary search finds the end of a run on one face,
and the region around the run is told by its first and its last index cell (`Region.ofRun?`).
-/

namespace SphereSearch.Region

/-- The region around the index cells from `start` up to `stop`, which are of one face. -/
def ofRun? (cells : Array IndexCell) (start stop : Nat) : Option Region := do
  let first ← cells[start]?
  let last ← cells[stop - 1]?
  if start + 1 = stop then return ⟨first.id, some start⟩
  let id ← first.id.commonAncestor? last.id
  return ⟨id, none⟩

/-- The regions around the runs of index cells from `start` on. -/
def runs (cells : Array IndexCell) (start : Nat) : List Region :=
  if h : start < cells.size then
    let stop := bisect (·.id.face = cells[start].id.face) cells start cells.size
    have _ : start < stop := lt_bisect h (Nat.le_refl _) (decide_eq_true rfl)
    (ofRun? cells start stop).toList ++ runs cells stop
  else []
termination_by cells.size - start

end SphereSearch.Region
