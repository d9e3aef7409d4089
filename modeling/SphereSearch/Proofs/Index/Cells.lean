import SphereSearch.Index.Basic
import SphereSearch.Proofs.Grid.Apart
import SphereSearch.Proofs.Shape.Edges

/-!
# The cells of an index

Dividing a cell of the grid gives cells inside it, one after the other (`Clipping.row_leavesIn`),
so the cells of an index are ascending and disjoint (`Index.tiled_buildWith`), whatever the
answers to the geometric questions are.  What an index cell lists are edges of the shapes
(`Index.mem_edges_of_mem_edgesOf`).  An index that is built has all that navigation relies on
(`Index.WellFormed`).
-/

namespace SphereSearch

/-- Index cells that are cells of the grid, ascending and without a common leaf. -/
structure Tiled (cells : List IndexCell) : Prop where
  exists_at : ∀ c ∈ cells, ∃ h n, c.id.At h n
  pairwise : cells.Pairwise fun a b => a.id.high ≤ b.id.low

/-- A cell has at least as many edges as each of its shapes. -/
lemma IndexCell.length_le_edgeCount {cell : IndexCell} {s : ClippedShape}
    (h : s ∈ cell.clipped) : s.edges.length ≤ cell.edgeCount := by
  obtain ⟨_, clipped⟩ := cell
  show s.edges.length ≤ clipped.foldr (fun t n => t.edges.length + n) 0
  induction clipped with
  | nil => exact absurd h List.not_mem_nil
  | cons t rest ih =>
    rw [List.foldr_cons]
    rcases List.mem_cons.1 h with rfl | h
    · exact Nat.le_add_right _ _
    · exact (ih h).trans (Nat.le_add_left _ _)

namespace Clipping

variable {c : Clipping} {shapes : List Shape} {candidates : List Candidate}

/-- Cells of the grid in a row, inside another one. -/
structure Row (id : CellId) (leaves : List (CellId × List Candidate)) : Prop where
  exists_at : ∀ p ∈ leaves, ∃ h n, p.1.At h n
  holds : ∀ p ∈ leaves, id.Holds p.1
  pairwise : leaves.Pairwise fun p q => p.1.high ≤ q.1.low

lemma row_singleton {id : CellId} {h n : ℕ} (ha : id.At h n) : Row id [(id, candidates)] where
  exists_at _ hp := ⟨h, n, List.mem_singleton.1 hp ▸ ha⟩
  holds _ hp := List.mem_singleton.1 hp ▸ .refl id
  pairwise := List.pairwise_singleton _ _

/-- Cells one after the other, and inside each of them a row of cells. -/
lemma pairwise_flatMap {ids : List CellId} {f : CellId → List (CellId × List Candidate)}
    (hf : ∀ id ∈ ids, Row id (f id)) (hids : ids.Pairwise fun a b => a.high ≤ b.low) :
    (ids.flatMap f).Pairwise fun p q => p.1.high ≤ q.1.low := by
  rw [List.pairwise_flatMap]
  refine ⟨fun id hid => (hf id hid).pairwise, ?_⟩
  refine hids.imp_of_mem ?_
  intro a b ha hb hab p hp q hq
  exact ((hf a ha).holds p hp).2.trans (hab.trans ((hf b hb).holds q hq).1)

/-- **Division gives a row.**  The cells inside a cell of the grid at which division stops lie one
after the other. -/
theorem row_leavesIn {maxEdges levels : ℕ} {id : CellId} {h n : ℕ} (ha : id.At h n)
    (hlevels : levels ≤ h) (candidates : List Candidate) :
    Row id (c.leavesIn maxEdges levels id candidates) := by
  induction levels generalizing id h n candidates with
  | zero => exact row_singleton ha
  | succ levels ih =>
    simp only [leavesIn]
    split
    · obtain ⟨h', rfl⟩ : ∃ h', h = h' + 1 := ⟨h - 1, by omega⟩
      have hchild : ∀ id' ∈ id.children, ∃ k < 4, id.child k = id' := by
        intro id' hid'
        obtain ⟨k, hk, rfl⟩ := List.mem_map.1 hid'
        exact ⟨k, List.mem_range.1 hk, rfl⟩
      have hparts : ∀ id' ∈ id.children,
          Row id' (c.leavesIn maxEdges levels id' (c.narrow id candidates)) := by
        intro id' hid'
        obtain ⟨k, hk, rfl⟩ := hchild id' hid'
        exact ih (ha.child hk) (by omega) _
      refine ⟨?_, ?_, pairwise_flatMap hparts ?_⟩
      · intro p hp
        obtain ⟨id', hid', hp⟩ := List.mem_flatMap.1 hp
        exact (hparts id' hid').exists_at p hp
      · intro p hp
        obtain ⟨id', hid', hp⟩ := List.mem_flatMap.1 hp
        obtain ⟨k, hk, rfl⟩ := hchild id' hid'
        exact (ha.holds_child hk).trans ((hparts _ hid').holds p hp)
      · simp only [CellId.children]
        rw [List.pairwise_map]
        refine List.pairwise_lt_range.imp_of_mem ?_
        intro i j hi hj hij
        rw [ha.high_child (List.mem_range.1 hi), ha.low_child (List.mem_range.1 hj)]
        gcongr
        omega
    · exact row_singleton ha

/-- All cells at which division stops are cells of the grid, one after the other. -/
theorem pairwise_leaves (c : Clipping) (settings : Index.Settings) (shapes : List Shape) :
    (∀ p ∈ c.leaves settings shapes, ∃ h n, p.1.At h n) ∧
      (c.leaves settings shapes).Pairwise fun p q => p.1.high ≤ q.1.low := by
  have hat : ∀ face ∈ List.range CellId.faceCount,
      (CellId.ofFace face).At CellId.maxLevel face :=
    fun face hface => CellId.At.ofFace (List.mem_range.1 hface)
  have hparts : ∀ id ∈ (List.range CellId.faceCount).map CellId.ofFace,
      Row id (c.leavesIn settings.maxEdges settings.maxLevel id (Candidate.all shapes)) := by
    intro id hid
    obtain ⟨face, hface, rfl⟩ := List.mem_map.1 hid
    exact row_leavesIn (hat face hface) settings.maxLevel_le _
  have hflat : c.leaves settings shapes = ((List.range CellId.faceCount).map CellId.ofFace).flatMap
      fun id => c.leavesIn settings.maxEdges settings.maxLevel id (Candidate.all shapes) := by
    rw [List.flatMap_map]
    rfl
  rw [hflat]
  refine ⟨fun p hp => ?_, pairwise_flatMap hparts ?_⟩
  · obtain ⟨id, hid, hp⟩ := List.mem_flatMap.1 hp
    exact (hparts id hid).exists_at p hp
  · rw [List.pairwise_map]
    refine List.pairwise_lt_range.imp_of_mem ?_
    intro i j hi hj hij
    rw [(hat i hi).high_eq, (hat j hj).low_eq]
    gcongr
    omega

lemma id_of_record? {id : CellId} {cell : IndexCell}
    (h : c.record? shapes id candidates = some cell) : cell.id = id := by
  simp only [record?] at h
  split at h
  · exact absurd h (by simp)
  · rw [← Option.some.inj h]

end Clipping

namespace Index

/-- The cells of an index are ascending and disjoint cells of the grid. -/
theorem tiled_buildWith (clipping : Clipping) (shapes : List Shape) (settings : Settings) :
    Tiled (buildWith clipping shapes settings).cells.toList := by
  obtain ⟨hat, hpairwise⟩ := clipping.pairwise_leaves settings shapes
  refine ⟨?_, ?_⟩
  · intro cell hcell
    obtain ⟨p, hp, hrecord⟩ := List.mem_filterMap.1 hcell
    rw [Clipping.id_of_record? hrecord]
    exact hat p hp
  · refine hpairwise.filterMap _ fun p q hpq a ha b hb => ?_
    rw [Clipping.id_of_record? ha, Clipping.id_of_record? hb]
    exact hpq

/-- What an index cell lists, by number. -/
lemma mem_edgesOf {x : Index} {cell : IndexCell} {r : EdgeRef} :
    r ∈ x.edgesOf cell ↔ (∃ s ∈ cell.clipped, s.shapeId = r.shapeId ∧ r.edgeId ∈ s.edges) ∧
      x.edge? r.shapeId r.edgeId = some r.edge := by
  simp only [edgesOf]
  rw [List.mem_flatMap]
  constructor
  · rintro ⟨s, hs, hr⟩
    obtain ⟨e, he, hr⟩ := List.mem_filterMap.1 hr
    obtain ⟨edge, hedge, rfl⟩ := Option.map_eq_some_iff.1 hr
    exact ⟨⟨s, hs, rfl, he⟩, hedge⟩
  · rintro ⟨⟨s, hs, hid, he⟩, hedge⟩
    refine ⟨s, hs, List.mem_filterMap.2 ⟨r.edgeId, he, ?_⟩⟩
    rw [hid, hedge]
    rfl

/-- The edges of an index under their numbers. -/
lemma edge?_buildWith {clipping : Clipping} {shapes : List Shape} {settings : Settings}
    {r : EdgeRef} :
    (buildWith clipping shapes settings).edge? r.shapeId r.edgeId = some r.edge ↔
      r ∈ EdgeRef.all shapes := by
  show (shapes.toArray[r.shapeId]?).bind (·.edge? r.edgeId) = some r.edge ↔ _
  rw [List.getElem?_toArray, EdgeRef.mem_all, Option.bind_eq_some_iff]

/-- What an index cell lists are edges of the index. -/
lemma mem_edges_of_mem_edgesOf {clipping : Clipping} {shapes : List Shape} {settings : Settings}
    {cell : IndexCell} {r : EdgeRef}
    (h : r ∈ (buildWith clipping shapes settings).edgesOf cell) :
    r ∈ (buildWith clipping shapes settings).edges :=
  edge?_buildWith.1 (mem_edgesOf.1 h).2

/-- The cells of an index are ascending and disjoint, list nothing but its edges, and lie in its
covering. -/
structure WellFormed (x : Index) : Prop where
  tiled : Tiled x.cells.toList
  covering_eq : x.covering = Region.covering x.cells.toList
  mem_edges : ∀ cell, ∀ r ∈ x.edgesOf cell, r ∈ x.edges

/-- An index that is built is well formed. -/
theorem wellFormed_buildWith (clipping : Clipping) (shapes : List Shape) (settings : Settings) :
    (buildWith clipping shapes settings).WellFormed where
  tiled := tiled_buildWith clipping shapes settings
  covering_eq := rfl
  mem_edges _ _ h := mem_edges_of_mem_edgesOf h

end Index

end SphereSearch
