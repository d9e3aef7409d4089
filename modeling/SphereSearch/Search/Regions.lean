import SphereSearch.Grid.Marker
import SphereSearch.Index.Basic

/-!
# The regions inside a region

A search descends from a cell of the grid to those of its quarters that hold index cells.  Two
look-ups find them all: the first index cell at or above the least leaf of an odd quarter lies
in that quarter, if any does, and the index cell before it lies in the quarter before, if any
does.  A quarter can be split once less than the cell (`height_of_mem_regionsInside`).
-/

namespace SphereSearch

namespace Index

/-- Quarter `k` of a cell as a region, given the position of an index cell in it. -/
def quarter (x : Index) (id : CellId) (k position : Nat) : Region :=
  let isIndexed := x.cells[position]?.any (·.id = id.child k)
  ⟨id.child k, if isIndexed then some position else none⟩

/-- The regions of quarter `k` and the quarter before it, as far as they hold index cells. -/
def quarterPair (x : Index) (id : CellId) (k : Nat) : List Region :=
  let position := x.seek (id.child k).rangeMin
  let upper := x.cells[position]?.any (·.id ≤ (id.child k).rangeMax)
  let lower :=
    0 < position && x.cells[position - 1]?.any (·.id ≥ (id.child (k - 1)).rangeMin)
  (if upper then [x.quarter id k position] else []) ++
    (if lower then [x.quarter id (k - 1) (position - 1)] else [])

/-- The quarters of a cell that hold index cells. -/
def regionsInside (x : Index) (id : CellId) : List Region :=
  if id.height = 0 then [] else x.quarterPair id 1 ++ x.quarterPair id 3

/-- At most four quarters hold index cells. -/
theorem length_regionsInside_le (x : Index) (id : CellId) :
    (x.regionsInside id).length ≤ 4 := by
  unfold regionsInside quarterPair
  dsimp only
  repeat' split
  all_goals simp

/-- The regions inside a cell can be split once less than the cell. -/
theorem height_of_mem_regionsInside {x : Index} {id : CellId} {r : Region}
    (h : r ∈ x.regionsInside id) : r.id.height + 1 = id.height := by
  have hpair : ∀ k, k < 4 → 0 < id.height → r ∈ x.quarterPair id k →
      r.id.height + 1 = id.height := by
    intro k hk hpos hr
    have hor : r = x.quarter id k (x.seek (id.child k).rangeMin) ∨
        r = x.quarter id (k - 1) (x.seek (id.child k).rangeMin - 1) := by
      unfold quarterPair at hr
      dsimp only at hr
      split at hr <;> split at hr <;> simp_all
    rcases hor with rfl | rfl
    · exact CellId.height_child hk hpos
    · exact CellId.height_child (by omega) hpos
  unfold regionsInside at h
  split at h
  · exact absurd h (List.not_mem_nil)
  · rcases List.mem_append.1 h with h | h
    · exact hpair 1 (by omega) (by omega) h
    · exact hpair 3 (by omega) (by omega) h

end Index

namespace Region

/-- An upper bound on the number of regions that a search can meet from this one on: an index
cell is not divided, and any other region is divided into at most four. -/
def weight (r : Region) : Nat :=
  match r.position? with
  | some _ => 1
  | none => 5 ^ (r.id.height + 1)

theorem weight_pos (r : Region) : 0 < r.weight := by
  unfold weight
  split
  · omega
  · exact Nat.pow_pos (by omega)

theorem weight_le (r : Region) : r.weight ≤ 5 ^ (r.id.height + 1) := by
  unfold weight
  split
  · exact Nat.pow_pos (by omega)
  · exact Nat.le_refl _

/-- The weight of several regions. -/
def total (regions : List Region) : Nat := regions.foldr (fun r n => r.weight + n) 0

@[simp] theorem total_nil : total [] = 0 := rfl

@[simp] theorem total_cons (r : Region) (rest : List Region) :
    total (r :: rest) = r.weight + total rest := rfl

theorem total_perm {l l' : List Region} (h : l.Perm l') : total l = total l' := by
  induction h with
  | nil => rfl
  | cons r _ ih => rw [total_cons, total_cons, ih]
  | swap r s rest =>
    simp only [total_cons]
    omega
  | trans _ _ ih ih' => rw [ih, ih']

/-- The regions inside a cell weigh less than the cell. -/
theorem total_regionsInside_lt (x : Index) (id : CellId) :
    total (x.regionsInside id) < 5 ^ (id.height + 1) := by
  have bound : ∀ l : List Region, (∀ r ∈ l, r.weight ≤ 5 ^ id.height) →
      total l ≤ l.length * 5 ^ id.height := by
    intro l hl
    induction l with
    | nil => simp
    | cons r rest ih =>
      have h1 := hl r (by simp)
      have h2 := ih fun s hs => hl s (by simp [hs])
      simp only [total_cons, List.length_cons, Nat.succ_mul]
      omega
  have hle := bound (x.regionsInside id) fun r hr =>
    Index.height_of_mem_regionsInside hr ▸ r.weight_le
  have hlen := Nat.mul_le_mul_right (5 ^ id.height) (x.length_regionsInside_le id)
  have hpos : 0 < 5 ^ id.height := Nat.pow_pos (by omega)
  rw [Nat.pow_succ]
  omega

end Region

end SphereSearch
