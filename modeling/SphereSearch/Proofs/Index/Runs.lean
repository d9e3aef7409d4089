import Mathlib.Data.List.Basic
import SphereSearch.Index.Runs
import SphereSearch.Proofs.Index.Navigation

/-!
# The covering, run by run

Since index cells are ascending, those of a face follow each other: bisection, which looks at a few
of them only, ends at the first index cell of a later face (`Region.isRun_bisect`).  Taking a run
away changes the index cells of its own face only (`Region.IsRun.onFace_of_ne`), so the regions
around the runs are those that are found by picking out the index cells face by face
(`Index.covering_eq_runs`).
-/

namespace SphereSearch

/-- If two functions differ at one number only, up to which the second one has no values, the values
of the first one are its value there and those of the second one. -/
lemma filterMap_range_eq {β : Type} {n k : ℕ} {g g' : ℕ → Option β} (hk : k < n)
    (hbelow : ∀ i ≤ k, g' i = none) (hne : ∀ i, i ≠ k → g i = g' i) :
    (List.range n).filterMap g = (g k).toList ++ (List.range n).filterMap g' := by
  obtain ⟨m, rfl⟩ : ∃ m, n = k + 1 + m := ⟨n - (k + 1), by omega⟩
  have hfront : (List.range k).filterMap g = [] := by
    refine List.filterMap_eq_nil_iff.2 fun i hi => ?_
    have hlt := List.mem_range.1 hi
    rw [hne i hlt.ne, hbelow i hlt.le]
  have hfront' : (List.range (k + 1)).filterMap g' = [] :=
    List.filterMap_eq_nil_iff.2 fun i hi => hbelow i (Nat.lt_succ_iff.1 (List.mem_range.1 hi))
  rw [List.range_add, List.filterMap_append, List.filterMap_append, hfront', List.nil_append,
    List.range_succ, List.filterMap_append, hfront, List.nil_append]
  congr 1
  refine List.filterMap_congr fun i hi => hne i ?_
  obtain ⟨j, -, rfl⟩ := List.mem_map.1 hi
  omega

namespace Region

variable {cells : Array IndexCell} {start stop face f : ℕ}

/-- The index cells of a face from a position on, with their positions. -/
def onFace (cells : Array IndexCell) (start face : ℕ) : List (IndexCell × ℕ) :=
  (cells.toList.zipIdx.drop start).filter fun p => p.1.id.face = face

/-- The index cells from `start` up to `stop` are of one face, and those behind them of later
ones. -/
structure IsRun (cells : Array IndexCell) (start stop face : ℕ) : Prop where
  lt : start < stop
  le_size : stop ≤ cells.size
  face_eq : ∀ i c, cells[i]? = some c → start ≤ i → i < stop → c.id.face = face
  lt_face : ∀ i c, cells[i]? = some c → stop ≤ i → face < c.id.face

/-- Bisection finds the end of a run. -/
lemma isRun_bisect (ht : Tiled cells.toList) (h : start < cells.size) :
    IsRun cells start (bisect (·.id.face = cells[start].id.face) cells start cells.size)
      cells[start].id.face := by
  have hmono : ∀ {i j : ℕ} {a b : IndexCell}, i ≤ j → cells[i]? = some a → cells[j]? = some b →
      a.id.face ≤ b.id.face := by
    intro i j a b hij ha hb
    rcases Nat.lt_or_eq_of_le hij with hij | rfl
    · rw [CellId.face_eq_div, CellId.face_eq_div]
      exact Nat.div_le_div_right (ht.toNat_lt ha hb hij).le
    · rw [ha] at hb
      rw [Option.some.inj hb]
  have hstart : cells[start]? = some cells[start] := Array.getElem?_eq_getElem h
  have hiff : ∀ i c, cells[i]? = some c → start ≤ i →
      (i < bisect (·.id.face = cells[start].id.face) cells start cells.size ↔
        c.id.face = cells[start].id.face) := by
    intro i c hc hi
    refine (lt_bisect_iff le_rfl ?_ hc hi (Array.getElem?_eq_some_iff.1 hc).1).trans
      decide_eq_true_iff
    intro i j a b hi hij _ ha hb heq
    rw [decide_eq_true_iff] at heq ⊢
    exact le_antisymm ((hmono hij ha hb).trans_eq heq) (hmono hi hstart ha)
  exact {
    lt := lt_bisect h le_rfl (decide_eq_true rfl)
    le_size := bisect_le h.le
    face_eq := fun i c hc hi hlt => (hiff i c hc hi).1 hlt
    lt_face := fun i c hc hge => by
      have hi : start ≤ i := le_bisect.trans hge
      exact lt_of_le_of_ne (hmono hi hstart hc) fun heq =>
        not_lt.2 hge ((hiff i c hc hi).2 heq.symm) }

/-- The index cells from a position on, with their positions. -/
lemma getElem?_drop_zipIdx {i : ℕ} :
    (cells.toList.zipIdx.drop start)[i]? = cells[start + i]?.map fun c => (c, start + i) := by
  rw [List.getElem?_drop, List.getElem?_zipIdx, Array.getElem?_toList, Nat.zero_add]

/-- The region around index cells, by the first and the last of them. -/
lemma around?_eq {group : List (IndexCell × ℕ)} {first last : IndexCell × ℕ}
    (hfirst : group.head? = some first) (hlast : group.getLast? = some last) :
    around? group = if group.length = 1 then some ⟨first.1.id, some first.2⟩
      else (first.1.id.commonAncestor? last.1.id).map (⟨·, none⟩) := by
  cases group with
  | nil => cases hfirst
  | cons p rest =>
    cases rest with
    | nil =>
      cases hfirst
      rfl
    | cons q rest =>
      cases hfirst
      rw [List.getLast?_cons_cons, List.getLast?_eq_some_getLast (List.cons_ne_nil q rest)] at hlast
      cases hlast
      rw [if_neg (by simp)]
      rfl

namespace IsRun

lemma onFace_stop (h : IsRun cells start stop face) (hf : f ≤ face) :
    onFace cells stop f = [] := by
  refine List.filter_eq_nil_iff.2 fun p hp => ?_
  obtain ⟨i, hi⟩ := List.mem_iff_getElem?.1 hp
  rw [getElem?_drop_zipIdx] at hi
  obtain ⟨c, hc, rfl⟩ := Option.map_eq_some_iff.1 hi
  rw [decide_eq_true_iff]
  exact (hf.trans_lt (h.lt_face _ _ hc (Nat.le_add_right _ _))).ne'

/-- The index cells of a face are those in the run, if it is of this face, and those behind it. -/
lemma onFace_eq_append (h : IsRun cells start stop face) (f : ℕ) :
    onFace cells start f = ((cells.toList.zipIdx.drop start).take (stop - start)).filter
      (fun p => p.1.id.face = f) ++ onFace cells stop f := by
  rw [onFace, onFace, ← List.filter_append]
  conv_lhs => rw [← List.take_append_drop (stop - start) (cells.toList.zipIdx.drop start)]
  rw [List.drop_drop, Nat.add_sub_cancel' h.lt.le]

lemma face_eq_of_mem_take (h : IsRun cells start stop face) {p : IndexCell × ℕ}
    (hp : p ∈ (cells.toList.zipIdx.drop start).take (stop - start)) : p.1.id.face = face := by
  obtain ⟨i, hi⟩ := List.mem_iff_getElem?.1 hp
  rw [List.getElem?_take, getElem?_drop_zipIdx] at hi
  obtain ⟨hlt, hi⟩ := Option.ite_none_right_eq_some.1 hi
  obtain ⟨c, hc, rfl⟩ := Option.map_eq_some_iff.1 hi
  exact h.face_eq _ c hc (Nat.le_add_right _ _) (by omega)

lemma onFace_of_ne (h : IsRun cells start stop face) (hf : f ≠ face) :
    onFace cells start f = onFace cells stop f := by
  rw [h.onFace_eq_append, List.filter_eq_nil_iff.2, List.nil_append]
  intro p hp
  rw [decide_eq_true_iff, h.face_eq_of_mem_take hp]
  exact hf.symm

lemma onFace_eq_take (h : IsRun cells start stop face) :
    onFace cells start face = (cells.toList.zipIdx.drop start).take (stop - start) := by
  rw [h.onFace_eq_append, h.onFace_stop le_rfl, List.append_nil, List.filter_eq_self]
  intro p hp
  rw [decide_eq_true_iff]
  exact h.face_eq_of_mem_take hp

/-- The first and the last index cell of a run tell the region around it. -/
lemma around?_onFace (h : IsRun cells start stop face) :
    around? (onFace cells start face) = ofRun? cells start stop := by
  have hlt := h.lt
  have hsize := h.le_size
  have hlength : (onFace cells start face).length = stop - start := by
    rw [h.onFace_eq_take, List.length_take, List.length_drop, List.length_zipIdx,
      Array.length_toList]
    omega
  have hget : ∀ i < stop - start,
      (onFace cells start face)[i]? = cells[start + i]?.map fun c => (c, start + i) := by
    intro i hi
    rw [h.onFace_eq_take, List.getElem?_take_of_lt hi, getElem?_drop_zipIdx]
  have hstart : cells[start]? = some cells[start] := Array.getElem?_eq_getElem _
  have hstop : cells[stop - 1]? = some cells[stop - 1] := Array.getElem?_eq_getElem _
  have hfirst : (onFace cells start face).head? = some (cells[start], start) := by
    rw [List.head?_eq_getElem?, hget 0 (by omega), Nat.add_zero, hstart, Option.map_some]
  have hlast : (onFace cells start face).getLast? = some (cells[stop - 1], stop - 1) := by
    rw [List.getLast?_eq_getElem?, hlength, hget _ (by omega),
      show start + (stop - start - 1) = stop - 1 by omega, hstop, Option.map_some]
  rw [around?_eq hfirst hlast, hlength, ofRun?, hstart, hstop]
  by_cases hone : start + 1 = stop
  · rw [if_pos (by omega)]
    simp [hone]
  · rw [if_neg (by omega)]
    simp [hone, Option.map_eq_bind]

end IsRun

/-- **Run by run.**  The regions around the runs of index cells are those around the index cells of
each face. -/
lemma runs_eq (ht : Tiled cells.toList) :
    runs cells start =
      (List.range CellId.faceCount).filterMap fun face => around? (onFace cells start face) := by
  fun_induction runs cells start with
  | case1 start h stop hlt ih =>
    have hrun : IsRun cells start stop cells[start].id.face := isRun_bisect ht h
    obtain ⟨height, n, hat⟩ := ht.exists_at_of_getElem? (Array.getElem?_eq_getElem h)
    rw [ih, ← hrun.around?_onFace]
    -- Behind the run nothing is left of its face or an earlier one, and the others lose nothing.
    refine (filterMap_range_eq (g := fun face => around? (onFace cells start face)) hat.face_lt
      (fun face hle => ?_) fun face hne => ?_).symm
    · rw [hrun.onFace_stop hle]
      rfl
    · rw [hrun.onFace_of_ne hne]
  | case2 start h =>
    refine (List.filterMap_eq_nil_iff.2 fun face _ => ?_).symm
    rw [onFace, List.drop_eq_nil_of_le]
    · rfl
    · rw [List.length_zipIdx, Array.length_toList]
      exact not_lt.1 h

end Region

namespace Index

/-- The covering of an index has the regions around the runs of index cells. -/
theorem covering_eq_runs {x : Index} (hx : x.WellFormed) : x.covering = Region.runs x.cells 0 := by
  rw [hx.covering_eq, Region.runs_eq hx.tiled]
  rfl

end Index

end SphereSearch
