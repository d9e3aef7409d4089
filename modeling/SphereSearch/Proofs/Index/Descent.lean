import SphereSearch.Proofs.Index.Navigation

/-!
# The way down to an index cell

A region leads to an index cell if it is that cell or lies above it (`Region.LeadsTo`).  From a
region above an index cell one of the regions inside it leads on
(`Index.exists_mem_regionsInside`).  So a search that takes up every region it meets reaches every
index cell that it starts above.
-/

namespace SphereSearch

/-- From a region one gets to the index cell at a position: it is that cell, or it has several
index cells inside and this is one of them. -/
inductive Region.LeadsTo (x : Index) (position : ℕ) : Region → Prop where
  /-- The region is the index cell. -/
  | here (cell : IndexCell) (hcell : x.cells[position]? = some cell) :
      LeadsTo x position ⟨cell.id, some position⟩
  /-- The index cell lies inside the region. -/
  | above (cell : IndexCell) (hcell : x.cells[position]? = some cell) (id : CellId)
      (hid : ∃ h n, id.At h n) (hold : id.Holds cell.id) (hne : cell.id ≠ id) :
      LeadsTo x position ⟨id, none⟩

/-- A region that leads to an index cell is an ancestor of it. -/
lemma Region.LeadsTo.exists_eq_parentAt {x : Index} (ht : Tiled x.cells.toList) {i : ℕ}
    {r : Region} (h : r.LeadsTo x i) {cell : IndexCell} (hcell : x.cells[i]? = some cell) :
    ∃ level ≤ cell.id.level, r.id = cell.id.parentAt level := by
  obtain ⟨H, N, hat⟩ := ht.exists_at_of_getElem? hcell
  cases h with
  | here other hother =>
    rw [hother] at hcell
    rw [Option.some.inj hcell]
    exact hat.exists_eq_parentAt hat (.refl _)
  | above other hother id hid hold _ =>
    obtain ⟨H', N', hid⟩ := hid
    rw [hother] at hcell
    rw [← Option.some.inj hcell] at hat ⊢
    exact hid.exists_eq_parentAt hat hold

namespace Index

variable {x : Index}

/-- A quarter found by way of any index cell in it leads to all of them. -/
lemma leadsTo_quarter (ht : Tiled x.cells.toList) {id : CellId} {h n k position i : ℕ}
    (ha : (id.child k).At h n) {cell other : IndexCell} (hcell : x.cells[i]? = some cell)
    (hold : (id.child k).Holds cell.id) (hother : x.cells[position]? = some other)
    (hlow : (id.child k).low < other.id.raw.toNat)
    (hhigh : other.id.raw.toNat < (id.child k).high) :
    (x.quarter id k position).LeadsTo x i := by
  obtain ⟨ho, no, hoat⟩ := ht.exists_at_of_getElem? hother
  have holow := hoat.low_lt
  have hohigh := hoat.lt_high
  have hany : x.cells[position]?.any (·.id = id.child k) = decide (other.id = id.child k) := by
    rw [hother]
    rfl
  simp only [quarter]
  rw [hany]
  by_cases heq : other.id = id.child k
  · -- The quarter is an index cell, so there is no other one in it.
    rw [← heq] at hold
    obtain rfl : position = i := ht.position_eq_of_holds hother hcell hother (.refl _) hold
    rw [if_pos (decide_eq_true heq), ← heq]
    exact .here other hother
  · rw [if_neg (by simpa using heq)]
    refine .above cell hcell _ ⟨h, n, ha⟩ hold ?_
    intro hcid
    have hpos : i = position := by
      refine ht.position_eq hcell hother ?_ ?_
      · rw [hcid]
        exact hlow.trans hohigh
      · rw [hcid]
        exact holow.trans hhigh
    subst hpos
    rw [hcell] at hother
    exact heq (Option.some.inj hother ▸ hcid)

/-- Looking for the upper quarter of a pair finds every index cell in it. -/
lemma exists_mem_quarterPair_upper (ht : Tiled x.cells.toList) {id : CellId} {h n k i : ℕ}
    (ha : (id.child k).At h n) {cell : IndexCell} (hcell : x.cells[i]? = some cell)
    (hold : (id.child k).Holds cell.id) : ∃ r ∈ x.quarterPair id k, r.LeadsTo x i := by
  obtain ⟨hc, nc, hcat⟩ := ht.exists_at_of_getElem? hcell
  have hmin := ha.toNat_rangeMin
  have hmax := ha.toNat_rangeMax
  have hclow := hcat.low_lt
  have hchigh := hcat.lt_high
  obtain ⟨hlow, hhigh⟩ := hold
  -- The first index cell from the least leaf on comes no later than `cell`.
  have hcge : ¬ cell.id < (id.child k).rangeMin := by
    rw [CellId.lt_iff_toNat]
    omega
  obtain ⟨first, hfirst, hge, hfle⟩ := exists_seek ht _ hcell hcge
  rw [CellId.lt_iff_toNat] at hge
  rw [CellId.le_iff_toNat] at hfle
  refine ⟨x.quarter id k (x.seek (id.child k).rangeMin), ?_,
    leadsTo_quarter ht ha hcell ⟨hlow, hhigh⟩ hfirst (by omega) (by omega)⟩
  simp only [quarterPair]
  have hupper :
      x.cells[x.seek (id.child k).rangeMin]?.any (·.id ≤ (id.child k).rangeMax) = true := by
    rw [hfirst, Option.any_some, decide_eq_true_iff, CellId.le_iff_toNat]
    omega
  rw [if_pos hupper]
  exact List.mem_append_left _ List.mem_cons_self

/-- An index cell after one that a cell of the grid holds does not lie across the end of this
cell. -/
lemma toNat_lt_high (ht : Tiled x.cells.toList) {c : CellId} {h n i j : ℕ} (hc : c.At h n)
    {cell last : IndexCell} (hcell : x.cells[i]? = some cell) (hlast : x.cells[j]? = some last)
    (hij : i < j) (hold : c.Holds cell.id) (hle : last.id.raw.toNat ≤ c.high) :
    last.id.raw.toNat < c.high := by
  obtain ⟨hk, k, hcat⟩ := ht.exists_at_of_getElem? hcell
  obtain ⟨hl, l, hlat⟩ := ht.exists_at_of_getElem? hlast
  have hapart := ht.high_le_low hcell hlast hij
  have hclow := hcat.low_lt
  have hchigh := hcat.lt_high
  have hllow := hlat.low_lt
  have hlhigh := hlat.lt_high
  obtain ⟨hlow, hhigh⟩ := hold
  by_contra hge
  rcases hc.holds_or_holds hlat (by omega) (by omega) with hin | hin
  · have := hin.2
    omega
  · have := hin.1
    omega

/-- Looking for the upper quarter of a pair also finds every index cell in the lower one. -/
lemma exists_mem_quarterPair_lower (ht : Tiled x.cells.toList) {id : CellId} {h n k i : ℕ}
    (ha : id.At (h + 1) n) (hk : k + 1 < 4) {cell : IndexCell}
    (hcell : x.cells[i]? = some cell) (hold : (id.child k).Holds cell.id) :
    ∃ r ∈ x.quarterPair id (k + 1), r.LeadsTo x i := by
  have hchild := ha.child (show k < 4 by omega)
  obtain ⟨hc, nc, hcat⟩ := ht.exists_at_of_getElem? hcell
  have hmin := hchild.toNat_rangeMin
  have hnext := (ha.child hk).toNat_rangeMin
  have hborder : (id.child k).high = (id.child (k + 1)).low := by
    rw [ha.high_child (show k < 4 by omega), ha.low_child hk]
    ring
  have hclow := hcat.low_lt
  have hchigh := hcat.lt_high
  obtain ⟨hlow, hhigh⟩ := hold
  -- The index cell before the first one of the upper quarter comes no earlier than `cell`.
  have hlt : i < x.seek (id.child (k + 1)).rangeMin := by
    rw [seek_spec ht _ hcell, CellId.lt_iff_toNat]
    omega
  have hsize := x.seek_le_size (id.child (k + 1)).rangeMin
  obtain ⟨last, hlast⟩ : ∃ last, x.cells[x.seek (id.child (k + 1)).rangeMin - 1]? = some last :=
    ⟨_, Array.getElem?_eq_getElem (by omega)⟩
  have hbefore := (seek_spec ht (id.child (k + 1)).rangeMin hlast).1 (by omega)
  rw [CellId.lt_iff_toNat] at hbefore
  obtain ⟨hlcle, hlasthigh⟩ : cell.id.raw.toNat ≤ last.id.raw.toNat ∧
      last.id.raw.toNat < (id.child k).high := by
    rcases Nat.lt_or_eq_of_le (Nat.le_sub_one_of_lt hlt) with hlt' | heq
    · exact ⟨(ht.toNat_lt hcell hlast hlt').le,
        toNat_lt_high ht hchild hcell hlast hlt' ⟨hlow, hhigh⟩ (by omega)⟩
    · rw [← heq, hcell] at hlast
      rw [← Option.some.inj hlast]
      exact ⟨le_rfl, hchigh.trans_le hhigh⟩
  refine ⟨x.quarter id k (x.seek (id.child (k + 1)).rangeMin - 1), ?_,
    leadsTo_quarter ht hchild hcell ⟨hlow, hhigh⟩ hlast (by omega) hlasthigh⟩
  simp only [quarterPair]
  have hlower : (decide (0 < x.seek (id.child (k + 1)).rangeMin) &&
      x.cells[x.seek (id.child (k + 1)).rangeMin - 1]?.any
        (·.id ≥ (id.child (k + 1 - 1)).rangeMin)) = true := by
    rw [hlast, Option.any_some, Bool.and_eq_true, decide_eq_true_iff, decide_eq_true_iff,
      Nat.add_sub_cancel, ge_iff_le, CellId.le_iff_toNat]
    omega
  rw [if_pos hlower]
  exact List.mem_append_right _ List.mem_cons_self

/-- **Onward.**  From a region that lies above an index cell, one of the regions inside it leads
on to the index cell. -/
theorem exists_mem_regionsInside (ht : Tiled x.cells.toList) {id : CellId} {i : ℕ}
    (h : Region.LeadsTo x i ⟨id, none⟩) : ∃ r ∈ x.regionsInside id, r.LeadsTo x i := by
  obtain ⟨cell, hcell, H, N, ha, hold, hne⟩ : ∃ cell, x.cells[i]? = some cell ∧
      ∃ H N, id.At H N ∧ id.Holds cell.id ∧ cell.id ≠ id := by
    cases h with
    | above cell hcell _ hid hold hne =>
      obtain ⟨H, N, ha⟩ := hid
      exact ⟨cell, hcell, H, N, ha, hold, hne⟩
  obtain ⟨hc, nc, hcat⟩ := ht.exists_at_of_getElem? hcell
  obtain ⟨hpos, k, hk, hchild⟩ := ha.exists_child hcat hold hne
  obtain ⟨h, rfl⟩ : ∃ h, H = h + 1 := ⟨H - 1, by omega⟩
  simp only [regionsInside]
  rw [if_neg (by rw [ha.height_eq]; omega)]
  have hpair : ∃ j, (j = 1 ∨ j = 3) ∧ ∃ r ∈ x.quarterPair id j, r.LeadsTo x i := by
    rcases Nat.mod_two_eq_zero_or_one k with heven | hodd
    · exact ⟨k + 1, by omega, exists_mem_quarterPair_lower ht ha (by omega) hcell hchild⟩
    · exact ⟨k, by omega, exists_mem_quarterPair_upper ht (ha.child hk) hcell hchild⟩
  obtain ⟨j, rfl | rfl, r, hr, hleads⟩ := hpair
  · exact ⟨r, List.mem_append_left _ hr, hleads⟩
  · exact ⟨r, List.mem_append_right _ hr, hleads⟩

end Index

end SphereSearch
