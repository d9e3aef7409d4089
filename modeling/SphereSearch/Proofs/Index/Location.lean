import SphereSearch.Proofs.Index.Division

/-!
# How a cell lies to the index cells

A cell of the grid lies in an index cell, or it has index cells strictly inside, or it has no leaf
in common with any.  These are three cases of which exactly one is met, and locating the cell tells
which (`Index.locates_buildWith`): each of its answers says what it stands for
(`Index.describes_locate`), and no two of them can be said of the same cell
(`Index.locate_eq_of_describes`).
-/

namespace SphereSearch

namespace Index

/-- What an answer says about the cell that is located. -/
def Location.Describes (x : Index) (target : CellId) : Location → Prop
  | .indexed i => ∃ a, x.cells[i]? = some a ∧ a.id.contains target = true
  | .subdivided => ∃ a ∈ x.cells, target.contains a.id = true ∧ a.id ≠ target
  | .disjoint => ∀ a ∈ x.cells, a.id.intersects target = false

variable {x : Index} {target : CellId} {h n : ℕ}

/-- Inside a subdivided cell, its least leaf leads to the first index cell. -/
lemma exists_of_locate_eq_subdivided (ht : Tiled x.cells.toList)
    (hlocate : x.locate target = .subdivided) :
    ∃ a, x.cells[x.seek target.rangeMin]? = some a ∧
      (target.contains a.id = true ∧ a.id ≠ target) ∧
      ∀ b ∈ x.cells, target.contains b.id = true → a.id ≤ b.id := by
  have hlocated := x.located target
  rw [hlocate] at hlocated
  obtain _ | _ | ⟨a, ha, hnot, hmax⟩ := hlocated
  have hge := mt (seek_spec ht target.rangeMin ha).2 (lt_irrefl _)
  rw [CellId.lt_iff_toNat, not_lt, ← CellId.le_iff_toNat] at hge
  refine ⟨a, ha, ⟨?_, ?_⟩, ?_⟩
  · rw [CellId.contains, Bool.and_eq_true, decide_eq_true_iff, decide_eq_true_iff]
    exact ⟨hge, hmax⟩
  · rintro rfl
    obtain ⟨H, N, hat⟩ := ht.exists_at_of_getElem? ha
    have hmin := hat.toNat_rangeMin
    have hlow := hat.low_lt
    refine hnot ⟨?_, ?_⟩
    · rw [CellId.le_iff_toNat]
    · rw [CellId.le_iff_toNat]
      omega
  · intro b hb hin
    rw [CellId.contains, Bool.and_eq_true, decide_eq_true_iff, CellId.le_iff_toNat] at hin
    obtain ⟨j, hj⟩ := Array.mem_iff_getElem?.1 hb
    obtain ⟨first, hfirst, -, hle⟩ := exists_seek ht target.rangeMin hj
      (by rw [CellId.lt_iff_toNat]; omega)
    rwa [Option.some.inj (ha.symm.trans hfirst)]

/-- What locating a cell says about it is so. -/
lemma describes_locate (ht : Tiled x.cells.toList) (hat : target.At h n) :
    (x.locate target).Describes x target := by
  have hlocated := x.located target
  cases hlocate : x.locate target with
  | indexed i =>
    obtain ⟨a, ha, hold⟩ := holds_of_locate_eq ht hat hlocate
    obtain ⟨H, N, haat⟩ := ht.exists_at_of_getElem? ha
    exact ⟨a, ha, (haat.contains_iff_holds hat).2 hold⟩
  | subdivided =>
    obtain ⟨a, ha, hin, -⟩ := exists_of_locate_eq_subdivided ht hlocate
    exact ⟨a, Array.mem_of_getElem? ha, hin⟩
  | disjoint =>
    rw [hlocate] at hlocated
    obtain _ | _ | _ | hafter := hlocated
    intro b hb
    obtain ⟨j, hj⟩ := Array.mem_iff_getElem?.1 hb
    obtain ⟨H, N, hbat⟩ := ht.exists_at_of_getElem? hj
    rw [← Bool.not_eq_true, hbat.intersects_iff hat]
    rintro (hold | hold)
    · exact absurd ((locate_eq_indexed ht hat hj hold).symm.trans hlocate) (by simp)
    · -- The index cell that is found lies no further than the one inside.
      have hmin := hat.toNat_rangeMin
      have hmax := hat.toNat_rangeMax
      have hlow := hbat.low_lt
      have hhigh := hbat.lt_high
      obtain ⟨hl, hh⟩ := hold
      have hge : ¬ b.id < target.rangeMin := by
        rw [CellId.lt_iff_toNat]
        omega
      obtain ⟨a, ha, -, hle⟩ := exists_seek ht target.rangeMin hj hge
      refine hafter a ha ?_
      rw [CellId.le_iff_toNat] at hle ⊢
      omega

/-- What lies in an index cell has no other index cell inside. -/
lemma eq_of_contains_of_contains (ht : Tiled x.cells.toList) (hat : target.At h n) {i : ℕ}
    {a b : IndexCell} (ha : x.cells[i]? = some a) (hb : b ∈ x.cells)
    (hout : a.id.contains target = true) (hin : target.contains b.id = true) : b.id = target := by
  obtain ⟨j, hj⟩ := Array.mem_iff_getElem?.1 hb
  obtain ⟨H, N, haat⟩ := ht.exists_at_of_getElem? ha
  obtain ⟨H', N', hbat⟩ := ht.exists_at_of_getElem? hj
  have hhold := (haat.contains_iff_holds hat).1 hout
  have hheld := (hat.contains_iff_holds hbat).1 hin
  obtain rfl : i = j := ht.position_eq_of_holds ha hj ha (.refl _) (hhold.trans hheld)
  obtain rfl : a = b := Option.some.inj (ha.symm.trans hj)
  exact haat.eq_of_holds_of_holds hat hhold hheld

lemma intersects_of_contains (ht : Tiled x.cells.toList) (hat : target.At h n) {a : IndexCell}
    (ha : a ∈ x.cells) (hcontains : a.id.contains target = true ∨ target.contains a.id = true) :
    a.id.intersects target = true := by
  obtain ⟨H, N, haat⟩ := ht.exists_at a (Array.mem_toList_iff.2 ha)
  rw [haat.contains_iff_holds hat, hat.contains_iff_holds haat] at hcontains
  exact (haat.intersects_iff hat).2 hcontains

/-- Only one answer can be given. -/
lemma locate_eq_of_describes (ht : Tiled x.cells.toList) (hat : target.At h n) {l : Location}
    (hl : l.Describes x target) : x.locate target = l := by
  have hlocate := describes_locate ht hat
  cases l with
  | indexed i =>
    obtain ⟨a, ha, hout⟩ := hl
    obtain ⟨H, N, haat⟩ := ht.exists_at_of_getElem? ha
    exact locate_eq_indexed ht hat ha ((haat.contains_iff_holds hat).1 hout)
  | subdivided =>
    obtain ⟨b, hb, hin, hne⟩ := hl
    generalize x.locate target = answer at hlocate ⊢
    cases answer with
    | indexed i =>
      obtain ⟨a, ha, hout⟩ := hlocate
      exact absurd (eq_of_contains_of_contains ht hat ha hb hout hin) hne
    | subdivided => rfl
    | disjoint => exact absurd ((hlocate b hb).symm.trans
        (intersects_of_contains ht hat hb (Or.inr hin))) Bool.false_ne_true
  | disjoint =>
    generalize x.locate target = answer at hlocate ⊢
    cases answer with
    | indexed i =>
      obtain ⟨a, ha, hout⟩ := hlocate
      have hmem := Array.mem_of_getElem? ha
      exact absurd ((hl a hmem).symm.trans
        (intersects_of_contains ht hat hmem (Or.inl hout))) Bool.false_ne_true
    | subdivided =>
      obtain ⟨b, hb, hin, -⟩ := hlocate
      exact absurd ((hl b hb).symm.trans
        (intersects_of_contains ht hat hb (Or.inr hin))) Bool.false_ne_true
    | disjoint => rfl

/-- Locating gives an answer exactly if this describes how the cell lies. -/
lemma locate_eq_iff (ht : Tiled x.cells.toList) (hat : target.At h n) {l : Location} :
    x.locate target = l ↔ l.Describes x target :=
  ⟨fun heq => heq ▸ describes_locate ht hat, locate_eq_of_describes ht hat⟩

/-- Each answer is given exactly in the case that it stands for, and leads to the index cells that
it is about. -/
structure Locates (x : Index) (target : CellId) : Prop where
  /-- The answer is a position exactly if the index cell there contains the cell. -/
  indexed_iff : ∀ i, x.locate target = .indexed i ↔
    ∃ a, x.cells[i]? = some a ∧ a.id.contains target = true
  /-- No two index cells contain the cell. -/
  position_eq : ∀ (i j : ℕ) (a b : IndexCell), x.cells[i]? = some a → x.cells[j]? = some b →
    a.id.contains target = true → b.id.contains target = true → i = j
  /-- The cell is subdivided exactly if it strictly contains an index cell. -/
  subdivided_iff : x.locate target = .subdivided ↔
    ∃ a ∈ x.cells, target.contains a.id = true ∧ a.id ≠ target
  /-- The least leaf then leads to the first index cell that it contains. -/
  first_of_subdivided : x.locate target = .subdivided →
    ∃ a, x.cells[x.seek target.rangeMin]? = some a ∧
      (target.contains a.id = true ∧ a.id ≠ target) ∧
      ∀ b ∈ x.cells, target.contains b.id = true → a.id ≤ b.id
  /-- The cell is apart exactly if it intersects no index cell. -/
  disjoint_iff : x.locate target = .disjoint ↔ ∀ a ∈ x.cells, a.id.intersects target = false

lemma locates_of_at (ht : Tiled x.cells.toList) (hat : target.At h n) : x.Locates target where
  indexed_iff _ := locate_eq_iff ht hat
  position_eq i j a b ha hb hout hout' := by
    have hi := (locate_eq_iff ht hat (l := .indexed i)).2 ⟨a, ha, hout⟩
    have hj := (locate_eq_iff ht hat (l := .indexed j)).2 ⟨b, hb, hout'⟩
    exact Location.indexed.inj (hi.symm.trans hj)
  subdivided_iff := locate_eq_iff ht hat
  first_of_subdivided := exists_of_locate_eq_subdivided ht
  disjoint_iff := locate_eq_iff ht hat

/-- **Locating.**  For every index that is built and every valid cell, locating the cell tells how
it lies to the index cells, and a point is found in the one index cell that contains its leaf. -/
theorem locates_buildWith (clipping : Clipping) (shapes : List Shape) (settings : Settings) :
    (∀ target : CellId, target.isValid = true →
      (buildWith clipping shapes settings).Locates target) ∧
    ∀ (p : Point) (cell : IndexCell),
      (buildWith clipping shapes settings).locatePoint? p = some cell ↔
        cell ∈ (buildWith clipping shapes settings).cells ∧
          cell.id.contains (CellId.ofPoint p) = true := by
  have ht := tiled_buildWith clipping shapes settings
  constructor
  · intro target hvalid
    obtain ⟨h, n, hat⟩ := CellId.isValid_iff_exists_at.1 hvalid
    exact locates_of_at ht hat
  · intro p cell
    obtain ⟨k, hleaf⟩ := CellId.exists_at_ofPoint p
    rw [locatePoint?_eq_some_iff ht]
    refine and_congr_right fun hcell => ?_
    obtain ⟨h, n, hat⟩ := ht.exists_at cell (Array.mem_toList_iff.2 hcell)
    exact (hat.contains_iff_holds hleaf).symm

/-- A quarter of the face around the north pole, in an index that has a point there. -/
theorem locates_buildWith_north :
    let target := (CellId.ofFace 4).child 1
    target.isValid = true ∧ (build [.points #[Point.north]] .default).Locates target := by
  have hvalid : ((CellId.ofFace 4).child 1).isValid = true := by decide
  exact ⟨hvalid, (locates_buildWith .geometric [.points #[Point.north]] .default).1 _ hvalid⟩

end Index

end SphereSearch
