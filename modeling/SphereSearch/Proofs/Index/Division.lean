import SphereSearch.Proofs.Grid.Hierarchy
import SphereSearch.Proofs.Index.Descent

/-!
# Regions without a common leaf

The regions that a search finds inside a region are quarters of it without a common leaf
(`Index.pairwise_regionsInside`), each of which leads to an index cell
(`Index.leadsTo_of_mem_regionsInside`).  So no cell of the grid is met on two ways, and no region
is divided in vain.
-/

namespace SphereSearch

namespace Region.LeadsTo

variable {x : Index} {r : Region} {i : ℕ} {cell : IndexCell}

lemma holds (h : r.LeadsTo x i) (hcell : x.cells[i]? = some cell) : r.id.Holds cell.id := by
  cases h with
  | here other hother =>
    rw [hother] at hcell
    rw [Option.some.inj hcell]
    exact .refl _
  | above other hother id _ hold =>
    rw [hother] at hcell
    rwa [← Option.some.inj hcell]

lemma exists_getElem? (h : r.LeadsTo x i) : ∃ cell, x.cells[i]? = some cell := by
  cases h with
  | here cell hcell => exact ⟨cell, hcell⟩
  | above cell hcell => exact ⟨cell, hcell⟩

/-- A region that leads anywhere is a cell of the grid. -/
lemma exists_at (ht : Tiled x.cells.toList) (h : r.LeadsTo x i) : ∃ h n, r.id.At h n := by
  cases h with
  | here cell hcell => exact ht.exists_at_of_getElem? hcell
  | above _ _ _ hid => exact hid

end Region.LeadsTo

/-- A region of an index: without a position it has an index cell strictly inside it, so that it
can be divided, and with a position it is the index cell there. -/
structure Region.Genuine (x : Index) (r : Region) : Prop where
  divisible : r.position? = none → r.id.isLeaf = false ∧
    ∃ cell ∈ x.cells, r.id.contains cell.id = true ∧ cell.id ≠ r.id
  indexed : ∀ i, r.position? = some i → ∃ cell, x.cells[i]? = some cell ∧ cell.id = r.id

/-- What leads to an index cell is genuine. -/
lemma Region.LeadsTo.genuine {x : Index} (ht : Tiled x.cells.toList) {r : Region} {i : ℕ}
    (h : r.LeadsTo x i) : r.Genuine x := by
  cases h with
  | here cell hcell =>
    refine ⟨fun hnone => absurd hnone (by simp), fun j hj => ⟨cell, ?_, rfl⟩⟩
    rwa [← Option.some.inj hj]
  | above cell hcell id hid hold hne =>
    refine ⟨fun _ => ?_, fun j hj => absurd hj (by simp)⟩
    obtain ⟨H, N, ha⟩ := hid
    obtain ⟨h, n, hat⟩ := ht.exists_at_of_getElem? hcell
    obtain ⟨hpos, -⟩ := ha.exists_child hat hold hne
    obtain ⟨H', rfl⟩ : ∃ H', H = H' + 1 := ⟨H - 1, by omega⟩
    exact ⟨ha.isLeaf_eq_false, cell, Array.mem_of_getElem? hcell,
      (ha.contains_iff_holds hat).2 hold, hne⟩

namespace Index

variable {x : Index} {id : CellId} {r : Region} {h n k : ℕ}

/-- In a pair, the upper quarter comes first. -/
lemma sublist_quarterPair (x : Index) (id : CellId) (k : ℕ) :
    ((x.quarterPair id k).map Region.id).Sublist [id.child k, id.child (k - 1)] := by
  simp only [quarterPair]
  rw [List.map_append]
  show List.Sublist _ ([id.child k] ++ [id.child (k - 1)])
  refine List.Sublist.append ?_ ?_
  · split
    · exact List.Sublist.refl _
    · exact List.nil_sublist _
  · split
    · exact List.Sublist.refl _
    · exact List.nil_sublist _

/-- The quarters that are found are different ones. -/
lemma sublist_regionsInside (x : Index) (id : CellId) :
    ((x.regionsInside id).map Region.id).Sublist
      [id.child 1, id.child 0, id.child 3, id.child 2] := by
  simp only [regionsInside]
  split
  · exact List.nil_sublist _
  · rw [List.map_append]
    exact (x.sublist_quarterPair id 1).append (x.sublist_quarterPair id 3)

/-- **Inside a region**, the regions found are apart. -/
theorem pairwise_regionsInside (x : Index) (hid : ∃ h n, id.At h n) :
    (x.regionsInside id).Pairwise fun r s => r.id.Apart s.id := by
  obtain ⟨h, n, ha⟩ := hid
  rw [← List.pairwise_map (f := Region.id) (R := CellId.Apart)]
  cases h with
  | zero =>
    simp only [regionsInside]
    rw [if_pos ha.height_eq]
    exact List.Pairwise.nil
  | succ h =>
    refine List.Pairwise.sublist (x.sublist_regionsInside id) ?_
    have hapart := fun k l hk hl hne => ha.apart_child (k := k) (l := l) hk hl hne
    simp only [List.pairwise_cons, List.mem_cons, List.not_mem_nil, or_false, forall_eq_or_imp,
      forall_eq, IsEmpty.forall_iff, implies_true, List.Pairwise.nil, and_true]
    exact ⟨⟨hapart _ _ (by decide) (by decide) (by decide),
      hapart _ _ (by decide) (by decide) (by decide),
      hapart _ _ (by decide) (by decide) (by decide)⟩,
      ⟨hapart _ _ (by decide) (by decide) (by decide),
        hapart _ _ (by decide) (by decide) (by decide)⟩,
      hapart _ _ (by decide) (by decide) (by decide)⟩

/-- A quarter that is taken because of an index cell in its range leads to this cell. -/
lemma leadsTo_quarter_of_contains (ht : Tiled x.cells.toList) (ha : (id.child k).At h n)
    {position : ℕ} {cell : IndexCell} (hcell : x.cells[position]? = some cell)
    (hmem : (id.child k).contains cell.id = true) :
    (x.quarter id k position).LeadsTo x position := by
  obtain ⟨hc, nc, hcat⟩ := ht.exists_at_of_getElem? hcell
  have hold := (ha.contains_iff_holds hcat).1 hmem
  have hlow := hcat.low_lt
  have hhigh := hcat.lt_high
  exact leadsTo_quarter ht ha hcell hold hcell (hold.1.trans_lt hlow) (hhigh.trans_le hold.2)

/-- The regions of a pair lead to the index cells by which they were found. -/
lemma leadsTo_of_mem_quarterPair (ht : Tiled x.cells.toList) (ha : id.At (h + 1) n) {l : ℕ}
    (hl : l < 2) (hr : r ∈ x.quarterPair id (2 * l + 1)) :
    (∃ k < 4, r.id = id.child k) ∧ ∃ i, r.LeadsTo x i := by
  have hupper := ha.child (k := 2 * l + 1) (by omega)
  have hlower := ha.child (k := 2 * l) (by omega)
  have hupperMin := hupper.toNat_rangeMin
  have hlowerMin := hlower.toNat_rangeMin
  have hlowerMax := hlower.toNat_rangeMax
  have hmiddle : (id.child (2 * l)).high = (id.child (2 * l + 1)).low := by
    rw [ha.high_child (by omega), ha.low_child (by omega)]
    ring
  simp only [quarterPair, Nat.add_sub_cancel] at hr
  rcases List.mem_append.1 hr with hr | hr
  · -- The upper quarter is found by the first index cell that is not below it.
    split at hr
    · rename_i hany
      obtain rfl := List.mem_singleton.1 hr
      cases hcell : x.cells[x.seek (id.child (2 * l + 1)).rangeMin]? with
      | none =>
        rw [hcell] at hany
        exact absurd hany (by simp)
      | some cell =>
        have hge := mt (seek_spec ht _ hcell).2 (lt_irrefl _)
        rw [hcell, Option.any_some] at hany
        refine ⟨⟨_, by omega, rfl⟩, _, leadsTo_quarter_of_contains ht hupper hcell ?_⟩
        rw [CellId.contains, hany, Bool.and_true, decide_eq_true_iff, CellId.le_iff_toNat]
        rw [CellId.lt_iff_toNat] at hge
        omega
    · exact absurd hr List.not_mem_nil
  · -- The lower one is found by the index cell before that.
    split at hr
    · rename_i hany
      obtain rfl := List.mem_singleton.1 hr
      obtain ⟨hpos, hany⟩ := Bool.and_eq_true_iff.1 hany
      have hpos := of_decide_eq_true hpos
      cases hcell : x.cells[x.seek (id.child (2 * l + 1)).rangeMin - 1]? with
      | none =>
        rw [hcell] at hany
        exact absurd hany (by simp)
      | some cell =>
        obtain ⟨hc, nc, hcat⟩ := ht.exists_at_of_getElem? hcell
        have hlt := (seek_spec ht (id.child (2 * l + 1)).rangeMin hcell).1 (by omega)
        rw [hcell, Option.any_some] at hany
        refine ⟨⟨_, by omega, rfl⟩, _, leadsTo_quarter_of_contains ht hlower hcell ?_⟩
        -- No word stands where an even quarter ends.
        have hne : cell.id.raw.toNat ≠ (id.child (2 * l)).high := by
          rw [ha.high_child (by omega), ha.low_eq]
          convert hcat.toNat_ne h (2 * n + l) using 1
          ring
        rw [CellId.contains, hany, Bool.true_and, decide_eq_true_iff, CellId.le_iff_toNat]
        rw [CellId.lt_iff_toNat] at hlt
        omega
    · exact absurd hr List.not_mem_nil

/-- **Inside a region**, each region found is a quarter and leads to an index cell. -/
theorem leadsTo_of_mem_regionsInside (ht : Tiled x.cells.toList) (hid : ∃ h n, id.At h n)
    (hr : r ∈ x.regionsInside id) :
    (id.Holds r.id ∧ id ≠ r.id) ∧ ∃ i, r.LeadsTo x i := by
  obtain ⟨h, n, ha⟩ := hid
  simp only [regionsInside] at hr
  rw [ha.height_eq] at hr
  cases h with
  | zero =>
    rw [if_pos rfl] at hr
    exact absurd hr List.not_mem_nil
  | succ h =>
    rw [if_neg (Nat.succ_ne_zero h)] at hr
    have hquarter : (∃ k < 4, r.id = id.child k) ∧ ∃ i, r.LeadsTo x i := by
      rcases List.mem_append.1 hr with hr | hr
      · exact leadsTo_of_mem_quarterPair ht ha (show 0 < 2 by decide) hr
      · exact leadsTo_of_mem_quarterPair ht ha (show 1 < 2 by decide) hr
    obtain ⟨⟨k, hk, heq⟩, hleads⟩ := hquarter
    rw [heq]
    refine ⟨⟨ha.holds_child hk, fun hsame => ?_⟩, hleads⟩
    have hheight := ha.height_eq
    rw [hsame, (ha.child hk).height_eq] at hheight
    omega

end Index

end SphereSearch
