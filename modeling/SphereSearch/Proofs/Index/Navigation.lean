import SphereSearch.Proofs.Grid.Hierarchy
import SphereSearch.Proofs.Grid.Leaf
import SphereSearch.Proofs.Index.Cells
import SphereSearch.Search.Regions

/-!
# Finding index cells

The index cells are ascending and disjoint, so binary search finds the first one at or above a
cell of the grid (`Index.seek_spec`).  What is compared to locate a cell is told by `Located`: a
cell is located at an index cell exactly if this one holds it (`Index.locate_eq_indexed`,
`Index.holds_of_locate_eq`), so that a point is found in the index cell that holds its leaf
(`Index.locatePoint?_eq_some_iff`).
-/

namespace SphereSearch

/-! ### Binary search -/

namespace Tiled

variable {cells : Array IndexCell} {a b : IndexCell} {i j : ℕ}

lemma exists_at_of_getElem? (ht : Tiled cells.toList) (ha : cells[i]? = some a) :
    ∃ h n, a.id.At h n :=
  ht.exists_at a (Array.mem_toList_iff.2 (Array.mem_of_getElem? ha))

lemma high_le_low (ht : Tiled cells.toList) (ha : cells[i]? = some a) (hb : cells[j]? = some b)
    (hij : i < j) : a.id.high ≤ b.id.low := by
  obtain ⟨hi, rfl⟩ := Array.getElem?_eq_some_iff.1 ha
  obtain ⟨hj, rfl⟩ := Array.getElem?_eq_some_iff.1 hb
  exact List.pairwise_iff_getElem.1 ht.pairwise i j (by simpa using hi) (by simpa using hj) hij

lemma toNat_lt (ht : Tiled cells.toList) (ha : cells[i]? = some a) (hb : cells[j]? = some b)
    (hij : i < j) : a.id.raw.toNat < b.id.raw.toNat := by
  obtain ⟨h, n, haat⟩ := ht.exists_at_of_getElem? ha
  obtain ⟨h', n', hbat⟩ := ht.exists_at_of_getElem? hb
  have hle := ht.high_le_low ha hb hij
  have h1 := haat.lt_high
  have h2 := hbat.low_lt
  omega

/-- Index cells with a common leaf are at the same position. -/
lemma position_eq (ht : Tiled cells.toList) (ha : cells[i]? = some a) (hb : cells[j]? = some b)
    (hlow : a.id.low < b.id.high) (hhigh : b.id.low < a.id.high) : i = j := by
  rcases lt_trichotomy i j with hij | hij | hij
  · have hle := ht.high_le_low ha hb hij
    omega
  · exact hij
  · have hle := ht.high_le_low hb ha hij
    omega

/-- Index cells that share a leaf with a third one are not two. -/
lemma position_eq_of_holds (ht : Tiled cells.toList) {c : IndexCell} {k : ℕ}
    (ha : cells[i]? = some a) (hb : cells[j]? = some b) (hc : cells[k]? = some c)
    (hca : c.id.Holds a.id) (hcb : c.id.Holds b.id) : i = j := by
  have hpos : ∀ {d : IndexCell} {l : ℕ}, cells[l]? = some d → c.id.Holds d.id → k = l := by
    intro d l hd hold
    obtain ⟨h, n, hat⟩ := ht.exists_at_of_getElem? hd
    obtain ⟨hlow, hhigh⟩ := hat.overlap hold (.refl _)
    exact ht.position_eq hc hd hlow hhigh
  exact (hpos ha hca).symm.trans (hpos hb hcb)

end Tiled

namespace Index

variable {x : Index}

/-- **Binary search** finds the first index cell that is not below the target. -/
theorem seek_spec (ht : Tiled x.cells.toList) (target : CellId) {i : ℕ} {a : IndexCell}
    (ha : x.cells[i]? = some a) : i < x.seek target ↔ a.id < target := by
  refine (lt_bisect_iff le_rfl ?_ ha (Nat.zero_le i) (Array.getElem?_eq_some_iff.1 ha).1).trans
    decide_eq_true_iff
  intro i j b c _ hij _ hb hc hlt
  rw [decide_eq_true_iff, CellId.lt_iff_toNat] at hlt ⊢
  rcases Nat.lt_or_eq_of_le hij with hij | rfl
  · exact (ht.toNat_lt hb hc hij).trans hlt
  · rw [hb] at hc
    rwa [Option.some.inj hc]

lemma seek_le_size (x : Index) (target : CellId) : x.seek target ≤ x.cells.size :=
  bisect_le (Nat.zero_le _)

/-- If some index cell is not below the target, binary search finds one, and it is the least of
them. -/
lemma exists_seek (ht : Tiled x.cells.toList) (target : CellId) {b : IndexCell} {j : ℕ}
    (hb : x.cells[j]? = some b) (hge : ¬ b.id < target) :
    ∃ a, x.cells[x.seek target]? = some a ∧ ¬ a.id < target ∧ a.id ≤ b.id := by
  have hle : x.seek target ≤ j := not_lt.1 (mt (seek_spec ht target hb).1 hge)
  have hsize : x.seek target < x.cells.size :=
    hle.trans_lt (Array.getElem?_eq_some_iff.1 hb).1
  obtain ⟨a, ha⟩ : ∃ a, x.cells[x.seek target]? = some a := ⟨_, Array.getElem?_eq_getElem hsize⟩
  refine ⟨a, ha, mt (seek_spec ht target ha).2 (lt_irrefl _), ?_⟩
  rw [CellId.le_iff_toNat]
  rcases Nat.lt_or_eq_of_le hle with hlt | heq
  · exact (ht.toNat_lt ha hb hlt).le
  · rw [heq, hb] at ha
    rw [Option.some.inj ha]

/-! ### Locating a cell -/

/-- A cell that holds another one and is not below its least leaf is not below the cell
itself, since its word is a border of its quarters. -/
lemma le_of_holds {id target : CellId} {h n h' n' : ℕ} (hid : id.At h n) (ha : target.At h' n')
    (hold : id.Holds target) (hge : ¬ id < target.rangeMin) : target ≤ id := by
  have hmin := ha.toNat_rangeMin
  have hlow := ha.low_lt
  have hhigh := ha.lt_high
  rw [CellId.lt_iff_toNat] at hge
  rw [CellId.le_iff_toNat]
  by_cases heq : target = id
  · rw [heq]
  · obtain ⟨hpos, k, hk, hklow, hkhigh⟩ := hid.exists_child ha hold heq
    obtain ⟨h, rfl⟩ : ∃ h₀, h = h₀ + 1 := ⟨h - 1, by omega⟩
    have hword : id.raw.toNat = id.low + 4 ^ h * 4 := by
      rw [hid.toNat_eq, hid.low_eq, Nat.pow_succ]
      ring
    rw [hid.low_child hk] at hklow
    rw [hid.high_child hk] at hkhigh
    rcases Nat.lt_or_ge k 2 with hk2 | hk2
    · have hle : 4 ^ h * (2 * k + 2) ≤ 4 ^ h * 4 := Nat.mul_le_mul_left _ (by omega)
      omega
    · have hle : 4 ^ h * 4 ≤ 4 ^ h * (2 * k) := Nat.mul_le_mul_left _ (by omega)
      omega

/-- The least leaf of a target leads to the index cell that holds the target, or to the position
behind it if the word of the index cell is below that leaf. -/
lemma seek_rangeMin (ht : Tiled x.cells.toList) {target : CellId} {h n i : ℕ}
    (ha : target.At h n) {a : IndexCell} (hi : x.cells[i]? = some a) (hold : a.id.Holds target) :
    (a.id < target.rangeMin → x.seek target.rangeMin = i + 1) ∧
      (¬ a.id < target.rangeMin → x.seek target.rangeMin = i) := by
  have hmin := ha.toNat_rangeMin
  have hlow := ha.low_lt
  have hhigh := ha.lt_high
  have hsize := x.seek_le_size target.rangeMin
  have hsize' := (Array.getElem?_eq_some_iff.1 hi).1
  obtain ⟨hl, hh⟩ := hold
  constructor
  · intro hlt
    have hi' := (seek_spec ht target.rangeMin hi).2 hlt
    by_contra hne
    have hget := Array.getElem?_eq_getElem (show i + 1 < x.cells.size by omega)
    have hb := (seek_spec ht target.rangeMin hget).1 (by omega)
    have hapart := ht.high_le_low hi hget (Nat.lt_succ_self i)
    obtain ⟨h', n', hbat⟩ := ht.exists_at_of_getElem? hget
    have hblow := hbat.low_lt
    rw [CellId.lt_iff_toNat] at hb
    omega
  · intro hge
    rw [← seek_spec ht target.rangeMin hi] at hge
    by_contra hne
    have hget := Array.getElem?_eq_getElem
      (show x.seek target.rangeMin < x.cells.size by omega)
    have hapart := ht.high_le_low hget hi (by omega)
    obtain ⟨h', n', hbat⟩ := ht.exists_at_of_getElem? hget
    have hbhigh := hbat.lt_high
    have hb := mt (seek_spec ht target.rangeMin hget).2 (lt_irrefl _)
    rw [CellId.lt_iff_toNat] at hb
    omega

/-- **Locating.**  A cell that an index cell holds is located there. -/
theorem locate_eq_indexed (ht : Tiled x.cells.toList) {target : CellId} {h n i : ℕ}
    (ha : target.At h n) {a : IndexCell} (hi : x.cells[i]? = some a) (hold : a.id.Holds target) :
    x.locate target = .indexed i := by
  obtain ⟨H, N, hat⟩ := ht.exists_at_of_getElem? hi
  have hmin := ha.toNat_rangeMin
  have hmax := ha.toNat_rangeMax
  have hlow := ha.low_lt
  have hhigh := ha.lt_high
  have hamin := hat.toNat_rangeMin
  have hamax := hat.toNat_rangeMax
  obtain ⟨hsucc, hseek⟩ := seek_rangeMin ht ha hi hold
  simp only [locate]
  by_cases hlt : a.id < target.rangeMin
  · -- The index cell is the one before the position that is found.
    have hbelow : (if 0 < i + 1 ∧ a.id.rangeMax ≥ target then Location.indexed i
        else .disjoint) = .indexed i := by
      refine if_pos ⟨Nat.succ_pos i, ?_⟩
      have hh := hold.2
      rw [ge_iff_le, CellId.le_iff_toNat]
      omega
    rw [hsucc hlt, Nat.add_sub_cancel, hi]
    split
    · rename_i cell hcell
      have hapart := ht.high_le_low hi hcell (Nat.lt_succ_self i)
      obtain ⟨h', n', hcat⟩ := ht.exists_at_of_getElem? hcell
      have hcmin := hcat.toNat_rangeMin
      have hclow := hcat.low_lt
      have hh := hold.2
      rw [if_neg, if_neg]
      · exact hbelow
      · rw [CellId.le_iff_toNat]
        omega
      · rw [ge_iff_le, CellId.le_iff_toNat, CellId.le_iff_toNat]
        omega
    · exact hbelow
  · rw [hseek hlt, hi]
    refine if_pos ⟨le_of_holds hat ha hold hlt, ?_⟩
    have hl := hold.1
    rw [CellId.le_iff_toNat]
    omega

/-- What is compared to locate a cell, and what the answer is.  The first index cell that is not
below the least leaf of the target is looked at first, and then the one before it. -/
inductive Located (x : Index) (target : CellId) : Location → Prop where
  /-- The index cell that is found comes after the target, and begins before it. -/
  | found (a : IndexCell) (ha : x.cells[x.seek target.rangeMin]? = some a)
      (hge : target ≤ a.id) (hmin : a.id.rangeMin ≤ target) :
      Located x target (.indexed (x.seek target.rangeMin))
  /-- The index cell before the one that is found ends after the target. -/
  | before (i : ℕ) (hi : x.seek target.rangeMin = i + 1) (a : IndexCell)
      (ha : x.cells[i]? = some a) (hmax : target ≤ a.id.rangeMax) :
      Located x target (.indexed i)
  /-- The index cell that is found comes before the greatest leaf of the target. -/
  | inside (a : IndexCell) (ha : x.cells[x.seek target.rangeMin]? = some a)
      (hnot : ¬ (target ≤ a.id ∧ a.id.rangeMin ≤ target)) (hmax : a.id ≤ target.rangeMax) :
      Located x target .subdivided
  /-- The index cell that is found, if any is, comes after the target's leaves. -/
  | outside (hafter : ∀ a, x.cells[x.seek target.rangeMin]? = some a →
      ¬ a.id ≤ target.rangeMax) : Located x target .disjoint

lemma located (x : Index) (target : CellId) : Located x target (x.locate target) := by
  unfold locate
  extract_lets position fromBelow
  have hbelow : (∀ a, x.cells[x.seek target.rangeMin]? = some a → ¬ a.id ≤ target.rangeMax) →
      Located x target fromBelow := by
    intro hafter
    simp only [fromBelow]
    split
    · rename_i a ha
      split
      · rename_i hrange
        exact .before _ (Nat.sub_add_cancel hrange.1).symm a ha hrange.2
      · exact .outside hafter
    · exact .outside hafter
  split
  · rename_i a ha
    split
    · rename_i hrange
      exact .found a ha hrange.1 hrange.2
    · rename_i hnot
      split
      · rename_i hmax
        exact .inside a ha hnot hmax
      · rename_i hmax
        refine hbelow fun b hb => ?_
        obtain rfl := Option.some.inj (ha.symm.trans hb)
        exact hmax
  · rename_i hnone
    exact hbelow fun b hb => absurd (hnone.symm.trans hb) (by simp)

/-- The index cell at which a cell is located holds it. -/
lemma holds_of_locate_eq (ht : Tiled x.cells.toList) {target : CellId} {h n i : ℕ}
    (ha : target.At h n) (hlocate : x.locate target = .indexed i) :
    ∃ a, x.cells[i]? = some a ∧ a.id.Holds target := by
  have hlocated := x.located target
  rw [hlocate] at hlocated
  have hmin := ha.toNat_rangeMin
  have hlow := ha.low_lt
  cases hlocated with
  | found a hcell hge hleast =>
    obtain ⟨H, N, hat⟩ := ht.exists_at_of_getElem? hcell
    have hmax := hat.toNat_rangeMax
    have hhigh := hat.lt_high
    refine ⟨a, hcell, (hat.contains_iff_holds ha).1 ?_⟩
    rw [CellId.le_iff_toNat] at hge
    rw [CellId.contains, Bool.and_eq_true, decide_eq_true_iff, decide_eq_true_iff]
    exact ⟨hleast, by rw [CellId.le_iff_toNat]; omega⟩
  | before _ hi a hcell hgreatest =>
    obtain ⟨H, N, hat⟩ := ht.exists_at_of_getElem? hcell
    have hamin := hat.toNat_rangeMin
    have halow := hat.low_lt
    have hlt := (seek_spec ht target.rangeMin hcell).1 (by omega)
    refine ⟨a, hcell, (hat.contains_iff_holds ha).1 ?_⟩
    rw [CellId.lt_iff_toNat] at hlt
    rw [CellId.contains, Bool.and_eq_true, decide_eq_true_iff, decide_eq_true_iff]
    exact ⟨by rw [CellId.le_iff_toNat]; omega, hgreatest⟩

/-- **Where a point is.**  The index cell that is found for a point is the one that holds its
leaf. -/
theorem locatePoint?_eq_some_iff (ht : Tiled x.cells.toList) {p : Point} {cell : IndexCell} :
    x.locatePoint? p = some cell ↔ cell ∈ x.cells ∧ cell.id.Holds (CellId.ofPoint p) := by
  obtain ⟨k, hleaf⟩ := CellId.exists_at_ofPoint p
  simp only [locatePoint?]
  constructor
  · intro h
    split at h
    · rename_i i hlocate
      obtain ⟨a, ha, hold⟩ := holds_of_locate_eq ht hleaf hlocate
      rw [ha] at h
      obtain rfl := Option.some.inj h
      exact ⟨Array.mem_of_getElem? ha, hold⟩
    · exact absurd h (by simp)
  · rintro ⟨hcell, hold⟩
    obtain ⟨i, hi⟩ := Array.mem_iff_getElem?.1 hcell
    rw [locate_eq_indexed ht hleaf hi hold]
    exact hi

end Index

end SphereSearch
