import Mathlib.Data.List.Sort
import SphereSearch.Proofs.Index.Representation

/-!
# What an index holds

The content of an index can be told without the way it is built.  An edge reaches a cell of the
grid if it may meet the cell and every cell around it (`Clipping.reaches`).  Division stops at a
cell exactly if too many edges reach every cell around it, but not the cell itself, or it is as
small as cells may be; this cell is an index cell if an edge reaches it or its anchor is inside a
shape; and it records exactly these shapes, with the edges that reach it by ascending number
(`Index.content_build`).
-/

namespace SphereSearch

/-- Only shapes with an interior have anything inside. -/
lemma Shape.hasInterior_of_contains {s : Shape} {p : Point} (h : s.contains p = true) :
    s.hasInterior = true := by
  cases s with
  | points _ => exact absurd h Bool.false_ne_true
  | polyline _ => exact absurd h Bool.false_ne_true
  | polygon _ => rfl

namespace Clipping

variable {c : Clipping} {settings : Index.Settings} {shapes : List Shape} {id : CellId} {i : ℕ}
  {s : Shape}

/-- The edges of a shape that reach a cell, by ascending number. -/
def edgesAt (c : Clipping) (s : Shape) (id : CellId) : List ℕ :=
  (List.range s.edgeCount).filter fun e => (s.edge? e).any (c.reaches id)

lemma mem_edgesAt {e : ℕ} :
    e ∈ c.edgesAt s id ↔ ∃ edge, s.edge? e = some edge ∧ c.reaches id edge = true := by
  rw [edgesAt, List.mem_filter, List.mem_range, Option.any_eq_true, and_iff_right_of_imp]
  rintro ⟨edge, hedge, -⟩
  rw [← s.isSome_edge?, hedge]
  rfl

/-- What survives down to a cell are the edges that reach it. -/
lemma mem_survivors_iff_reaches {r : EdgeRef} :
    r ∈ c.survivors shapes id ↔ r ∈ EdgeRef.all shapes ∧ c.reaches id r.edge = true := by
  rw [mem_survivors, reaches, decide_eq_true_iff]

/-- **Each shape by itself.**  Of the edges that survive down to a cell, those of one shape are
the edges of the shape that reach it. -/
lemma map_edgeId_survivors (hs : shapes[i]? = some s) :
    ((c.survivors shapes id).filter (·.shapeId = i)).map (·.edgeId) = c.edgesAt s id := by
  have hsorted : (((c.survivors shapes id).filter (·.shapeId = i)).map (·.edgeId)).SortedLT :=
    (pairwise_edgeId List.filter_sublist i).sortedLT
  have hsorted' : (c.edgesAt s id).SortedLT := (List.pairwise_lt_range.filter _).sortedLT
  refine hsorted.eq_of_mem_iff hsorted' fun e => ?_
  rw [mem_edgesAt, List.mem_map]
  constructor
  · rintro ⟨r, hr, rfl⟩
    obtain ⟨hr, hi⟩ := List.mem_filter.1 hr
    obtain ⟨hall, hreaches⟩ := mem_survivors_iff_reaches.1 hr
    obtain ⟨s', hs', hedge⟩ := EdgeRef.mem_all.1 hall
    rw [of_decide_eq_true hi, hs] at hs'
    exact ⟨r.edge, Option.some.inj hs' ▸ hedge, hreaches⟩
  · rintro ⟨edge, hedge, hreaches⟩
    refine ⟨⟨i, e, edge⟩, List.mem_filter.2 ⟨?_, decide_eq_true rfl⟩, rfl⟩
    exact mem_survivors_iff_reaches.2 ⟨EdgeRef.mem_all.2 ⟨s, hs, hedge⟩, hreaches⟩

/-- What is recorded of a shape at a cell. -/
lemma clip?_survivors_eq_some_iff (hs : shapes[i]? = some s) {t : ClippedShape} :
    c.clip? id (c.survivors shapes id) s i = some t ↔
      (c.edgesAt s id ≠ [] ∨ c.holdsAnchor s id = true) ∧
        t = ⟨i, c.holdsAnchor s id, c.edgesAt s id⟩ := by
  rw [clip?_eq_clipTo?, map_edgeId_survivors hs]
  simp only [clipTo?]
  by_cases hnone : ((c.edgesAt s id).isEmpty && !c.holdsAnchor s id) = true
  · rw [if_pos hnone]
    rw [Bool.and_eq_true, List.isEmpty_iff, Bool.not_eq_true'] at hnone
    refine iff_of_false (by simp) ?_
    rintro ⟨hedges | hanchor, -⟩
    · exact hedges hnone.1
    · exact absurd (hnone.2.symm.trans hanchor) Bool.false_ne_true
  · rw [if_neg hnone, Option.some_inj, eq_comm, iff_and_self]
    rw [Bool.and_eq_true, not_and_or, List.isEmpty_iff, Bool.not_eq_true', Bool.not_eq_false]
      at hnone
    exact fun _ => hnone

/-- What a cell records: the shapes of which an edge reaches it or whose interior holds its
anchor. -/
lemma mem_clipped_iff {cell : IndexCell}
    (hcell : c.leaf? shapes id (c.survivors shapes id) = some cell) {t : ClippedShape} :
    t ∈ cell.clipped ↔ ∃ s, shapes[t.shapeId]? = some s ∧
      (c.edgesAt s id ≠ [] ∨ c.holdsAnchor s id = true) ∧
      t.edges = c.edgesAt s id ∧ t.containsAnchor = c.holdsAnchor s id := by
  rw [clipped_of_leaf? hcell, List.mem_filterMap]
  constructor
  · rintro ⟨⟨s, i⟩, hs, hclip⟩
    have hget := List.mk_mem_zipIdx_iff_getElem?.1 hs
    obtain ⟨hsome, rfl⟩ := (clip?_survivors_eq_some_iff hget).1 hclip
    exact ⟨s, hget, hsome, rfl, rfl⟩
  · rintro ⟨s, hs, hsome, hedges, hanchor⟩
    refine ⟨(s, t.shapeId), List.mk_mem_zipIdx_iff_getElem?.2 hs,
      (clip?_survivors_eq_some_iff hs).2 ⟨hsome, ?_⟩⟩
    rw [← hedges, ← hanchor]

/-- A cell is recorded if an edge reaches it or the interior of a shape holds its anchor. -/
lemma exists_leaf?_iff : (∃ cell, c.leaf? shapes id (c.survivors shapes id) = some cell) ↔
    c.survivors shapes id ≠ [] ∨ ∃ s ∈ shapes, c.holdsAnchor s id = true := by
  constructor
  · rintro ⟨cell, hcell⟩
    have hne : cell.clipped ≠ [] := by
      simp only [leaf?] at hcell
      split at hcell
      · exact absurd hcell (by simp)
      · rename_i hsome
        rw [← Option.some.inj hcell]
        rwa [List.isEmpty_iff] at hsome
    obtain ⟨t, ht⟩ := List.exists_mem_of_ne_nil _ hne
    obtain ⟨s, hs, hedges | hanchor, -⟩ := (mem_clipped_iff hcell).1 ht
    · refine Or.inl fun hnil => hedges ?_
      rw [← map_edgeId_survivors hs, hnil]
      rfl
    · exact Or.inr ⟨s, List.mem_of_getElem? hs, hanchor⟩
  · rintro (hsome | ⟨s, hs, hanchor⟩)
    · obtain ⟨r, hr⟩ := List.exists_mem_of_ne_nil _ hsome
      exact exists_leaf? c id hr (mem_survivors.1 hr).1
    · obtain ⟨i, hi⟩ := List.mem_iff_getElem?.1 hs
      exact exists_leaf?_of_clip? hi
        ((clip?_survivors_eq_some_iff hi).2 ⟨Or.inr hanchor, rfl⟩)

end Clipping

namespace Index

open Clipping

/-- **What an index holds.**  Division stops at a cell exactly if too many edges reach each cell
around it, all of which may be divided, but not the cell itself, or it is at the deepest level.
The index cells are those of them that an edge reaches or whose anchor is inside a shape.  An index
cell records a shape exactly if one of its edges reaches the cell or the shape contains the anchor,
with all its edges that reach the cell and with whether the anchor is inside. -/
theorem content_build (shapes : List Shape) (settings : Settings) :
    let c := geometric
    let x := build shapes settings
    (∀ id : CellId, id ∈ (c.leaves settings shapes).map Prod.fst ↔
      id.isValid = true ∧
      (∀ level < id.level, settings.maxEdges < (c.survivors shapes (id.parentAt level)).length ∧
        level < settings.maxLevel) ∧
      ((c.survivors shapes id).length ≤ settings.maxEdges ∨ id.level = settings.maxLevel)) ∧
    (∀ id : CellId, (∃ cell ∈ x.cells, cell.id = id) ↔
      id ∈ (c.leaves settings shapes).map Prod.fst ∧
      (c.survivors shapes id ≠ [] ∨ ∃ s ∈ shapes, s.contains id.anchor = true)) ∧
    ∀ cell ∈ x.cells, ∀ t : ClippedShape, t ∈ cell.clipped ↔
      ∃ s, shapes[t.shapeId]? = some s ∧
        (c.edgesAt s cell.id ≠ [] ∨ s.contains cell.id.anchor = true) ∧
        t.edges = c.edgesAt s cell.id ∧
        t.containsAnchor = (s.hasInterior && s.contains cell.id.anchor) := by
  intro c x
  have hstops : ∀ id, id ∈ (c.leaves settings shapes).map Prod.fst ↔
      c.StopsAt settings shapes id := by
    intro id
    rw [List.mem_map]
    constructor
    · rintro ⟨p, hp, rfl⟩
      exact (mem_leaves_iff.1 hp).1
    · exact fun hid => ⟨(id, c.candidatesAt shapes id), mem_leaves_iff.2 ⟨hid, rfl⟩, rfl⟩
  have hanchor : ∀ (s : Shape) (id : CellId),
      c.holdsAnchor s id = true ↔ s.contains id.anchor = true := by
    intro s id
    show (s.hasInterior && s.contains id.anchor) = true ↔ _
    rw [Bool.and_eq_true, and_iff_right_of_imp Shape.hasInterior_of_contains]
  refine ⟨fun id => ?_, fun id => ?_, fun cell hcell t => ?_⟩
  · rw [hstops]
    constructor
    · intro hid
      obtain ⟨h, n, ha⟩ := hid.exists_at
      exact ⟨ha.isValid, fun level hl => ⟨hid.crowded level hl, hl.trans_le hid.level_le⟩,
        hid.stops.symm⟩
    · rintro ⟨hvalid, haround, hself⟩
      refine ⟨CellId.isValid_iff_exists_at.1 hvalid, ?_, fun level hl => (haround level hl).1,
        hself.symm⟩
      rcases Nat.eq_zero_or_pos id.level with hzero | hpos
      · omega
      · have hlt := (haround (id.level - 1) (by omega)).2
        omega
  · rw [hstops]
    simp only [← hanchor]
    rw [← exists_leaf?_iff]
    constructor
    · rintro ⟨cell, hcell, rfl⟩
      obtain ⟨id, hid, hleaf⟩ := mem_cells_buildWith.1 hcell
      rw [id_of_mem_leaf? hleaf]
      exact ⟨hid, cell, hleaf⟩
    · rintro ⟨hid, cell, hleaf⟩
      exact ⟨cell, mem_cells_buildWith.2 ⟨id, hid, hleaf⟩, id_of_mem_leaf? hleaf⟩
  · obtain ⟨id, -, hleaf⟩ := mem_cells_buildWith.1 hcell
    rw [mem_clipped_iff hleaf, id_of_mem_leaf? hleaf]
    exact exists_congr fun s =>
      and_congr_right fun _ => and_congr_left fun _ => or_congr_right (hanchor s id)

end Index

end SphereSearch
