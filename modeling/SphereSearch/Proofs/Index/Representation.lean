import Mathlib.Data.List.Perm.Subperm
import SphereSearch.Proofs.Index.Coverage
import SphereSearch.Proofs.Index.Navigation

/-!
# What the cells of an index look like

Navigation, descent and search rely on the form of the index cells: they are valid cells of the
grid without a common leaf, crowded only where the settings forbid to go deeper, and each lists
shapes by ascending number with edges by ascending number.  All of this follows from the way the
index is built (`Index.wellFormed_cells_buildWith`), whatever the answers to the geometric
questions are, and binary search finds the entry of a shape (`IndexCell.find?_eq_some_iff`).
-/

namespace SphereSearch

/-! ### The entry of a shape -/

namespace IndexCell

/-- Binary search between two positions finds the entry of the shape between them, if there is
one. -/
lemma search_eq_some_iff {entries : Array ClippedShape}
    (hasc : ∀ (i j : ℕ) (a b : ClippedShape), entries[i]? = some a → entries[j]? = some b →
      i < j → a.shapeId < b.shapeId)
    {shapeId : ℤ} {lo hi : ℕ} (hhi : hi ≤ entries.size) {s : ClippedShape} :
    search entries shapeId lo hi = some s ↔
      ∃ i, lo ≤ i ∧ i < hi ∧ entries[i]? = some s ∧ (s.shapeId : ℤ) = shapeId := by
  fun_induction search entries shapeId lo hi with
  | case1 lo hi hrange middle hmiddle heq =>
    have hget : entries[middle]? = some entries[middle] := Array.getElem?_eq_getElem hmiddle
    rw [Option.some_inj]
    constructor
    · rintro rfl
      exact ⟨middle, by omega, by omega, hget, heq⟩
    · rintro ⟨i, -, -, hs, hid⟩
      rcases lt_trichotomy i middle with hlt | rfl | hgt
      · have hless := hasc i middle s _ hs hget hlt
        omega
      · rw [hget] at hs
        exact Option.some.inj hs
      · have hless := hasc middle i _ s hget hs hgt
        omega
  | case2 lo hi hrange middle hmiddle hne hlt ih =>
    have hget : entries[middle]? = some entries[middle] := Array.getElem?_eq_getElem hmiddle
    rw [ih hhi]
    refine exists_congr fun i => ⟨fun ⟨hlo, h⟩ => ⟨by omega, h⟩, ?_⟩
    rintro ⟨-, hihi, hs, hid⟩
    refine ⟨?_, hihi, hs, hid⟩
    by_contra hle
    rcases Nat.lt_or_eq_of_le (show i ≤ middle by omega) with hi | rfl
    · have hless := hasc i middle s _ hs hget hi
      omega
    · rw [hget] at hs
      obtain rfl := Option.some.inj hs
      exact hne hid
  | case3 lo hi hrange middle hmiddle hne hge ih =>
    have hget : entries[middle]? = some entries[middle] := Array.getElem?_eq_getElem hmiddle
    rw [ih (by omega)]
    refine exists_congr fun i => ⟨fun ⟨hlo, hi', h⟩ => ⟨hlo, by omega, h⟩, ?_⟩
    rintro ⟨hlo, -, hs, hid⟩
    refine ⟨hlo, ?_, hs, hid⟩
    by_contra hle
    rcases Nat.lt_or_eq_of_le (show middle ≤ i by omega) with hi | rfl
    · have hless := hasc middle i _ s hget hs hi
      omega
    · rw [hget] at hs
      obtain rfl := Option.some.inj hs
      exact hne hid
  | case4 lo hi hrange =>
    refine iff_of_false (by simp) ?_
    rintro ⟨i, hlo, hihi, -⟩
    exact hrange ⟨by omega, hhi⟩

/-- **Binary search** finds the entry of a shape exactly if the cell has one. -/
lemma find?_eq_some_iff {cell : IndexCell}
    (hasc : cell.clipped.Pairwise fun a b => a.shapeId < b.shapeId) {shapeId : ℤ}
    {s : ClippedShape} :
    cell.find? shapeId = some s ↔ s ∈ cell.clipped ∧ (s.shapeId : ℤ) = shapeId := by
  simp only [find?]
  rw [search_eq_some_iff ?_ (by rw [List.size_toArray])]
  · constructor
    · rintro ⟨i, -, -, hs, hid⟩
      rw [List.getElem?_toArray] at hs
      exact ⟨List.mem_of_getElem? hs, hid⟩
    · rintro ⟨hs, hid⟩
      obtain ⟨i, hi, rfl⟩ := List.mem_iff_getElem.1 hs
      refine ⟨i, Nat.zero_le i, hi, ?_, hid⟩
      rw [List.getElem?_toArray, List.getElem?_eq_getElem hi]
  · intro i j a b ha hb hij
    rw [List.getElem?_toArray] at ha hb
    obtain ⟨hi, rfl⟩ := List.getElem?_eq_some_iff.1 ha
    obtain ⟨hj, rfl⟩ := List.getElem?_eq_some_iff.1 hb
    exact List.pairwise_iff_getElem.1 hasc i j hi hj hij

end IndexCell

/-! ### The form of an index cell -/

/-- The entry of a shape lists edges of the shape by ascending number, and is there for an edge
or for the anchor of the cell. -/
structure ClippedShape.WellFormed (shapes : List Shape) (s : ClippedShape) : Prop where
  lt_edgeCount : ∃ shape, shapes[s.shapeId]? = some shape ∧ ∀ e ∈ s.edges, e < shape.edgeCount
  ascending : s.edges.Pairwise (· < ·)
  nonempty : s.edges ≠ [] ∨ s.containsAnchor = true

/-- An index cell is a valid cell of the grid at a level that the settings allow, and crowded
only at the deepest one.  It has entries by ascending number of the shape, which are found by
this number. -/
structure IndexCell.WellFormed (settings : Index.Settings) (shapes : List Shape)
    (cell : IndexCell) : Prop where
  isValid : cell.id.isValid = true
  level_le : cell.id.level ≤ settings.maxLevel
  level_eq : settings.maxEdges < cell.edgeCount → cell.id.level = settings.maxLevel
  clipped_ne_nil : cell.clipped ≠ []
  ascending : cell.clipped.Pairwise fun a b => a.shapeId < b.shapeId
  wellFormed : ∀ s ∈ cell.clipped, s.WellFormed shapes
  find?_iff : ∀ shapeId s, cell.find? shapeId = some s ↔
    s ∈ cell.clipped ∧ (s.shapeId : ℤ) = shapeId

namespace IndexCell

/-- The edges that a cell lists, by shape and number. -/
def places (cell : IndexCell) : List (ℕ × ℕ) :=
  cell.clipped.flatMap fun s => s.edges.map fun e => (s.shapeId, e)

lemma length_places (cell : IndexCell) : cell.places.length = cell.edgeCount := by
  simp only [places]
  rw [List.length_flatMap]
  simp only [List.length_map]
  exact List.foldr_map

/-- No edge is listed twice if the entries and their edges are ascending. -/
lemma nodup_places {shapes : List Shape} {cell : IndexCell}
    (hasc : cell.clipped.Pairwise fun a b => a.shapeId < b.shapeId)
    (hedges : ∀ s ∈ cell.clipped, s.WellFormed shapes) : cell.places.Nodup := by
  refine List.pairwise_flatMap.2 ⟨?_, ?_⟩
  · intro s hs
    rw [List.pairwise_map]
    exact (hedges s hs).ascending.imp fun hlt heq => absurd (Prod.ext_iff.1 heq).2 hlt.ne
  · refine hasc.imp ?_
    intro s t hst p hp q hq
    obtain ⟨e, -, rfl⟩ := List.mem_map.1 hp
    obtain ⟨e', -, rfl⟩ := List.mem_map.1 hq
    exact fun heq => absurd (Prod.ext_iff.1 heq).1 hst.ne

end IndexCell

namespace Clipping

variable {c : Clipping} {settings : Index.Settings} {shapes : List Shape} {id : CellId}
  {kept : List EdgeRef}

/-- What a cell records of a shape: whether it holds the anchor, and the edges that are kept. -/
lemma eq_of_clip? {shape : Shape} {shapeId : ℕ} {s : ClippedShape}
    (hclip : c.clip? id kept shape shapeId = some s) :
    s = ⟨shapeId, c.holdsAnchor shape id, (kept.filter (·.shapeId = shapeId)).map (·.edgeId)⟩ ∧
      (s.edges ≠ [] ∨ s.containsAnchor = true) := by
  simp only [clip?] at hclip
  split at hclip
  · exact absurd hclip (by simp)
  · rename_i hsome
    obtain rfl := Option.some.inj hclip
    refine ⟨rfl, ?_⟩
    rw [Bool.and_eq_true, not_and_or, List.isEmpty_iff, Bool.not_eq_true', Bool.not_eq_false]
      at hsome
    exact hsome

/-- The edges of one shape are listed by ascending number. -/
lemma pairwise_edgeId (hkept : kept.Sublist (EdgeRef.all shapes)) (i : ℕ) :
    ((kept.filter (·.shapeId = i)).map (·.edgeId)).Pairwise (· < ·) := by
  rw [List.pairwise_map]
  refine ((EdgeRef.pairwise_all shapes).sublist (List.filter_sublist.trans hkept)).imp_of_mem ?_
  intro a b ha hb hab
  have hid := of_decide_eq_true (List.mem_filter.1 ha).2
  have hid' := of_decide_eq_true (List.mem_filter.1 hb).2
  omega

/-- What is recorded of a shape is well formed. -/
lemma wellFormed_of_clip? {shape : Shape} {shapeId : ℕ} {s : ClippedShape}
    (hkept : kept.Sublist (EdgeRef.all shapes)) (hshape : shapes[shapeId]? = some shape)
    (hclip : c.clip? id kept shape shapeId = some s) : s.WellFormed shapes := by
  obtain ⟨rfl, hnonempty⟩ := eq_of_clip? hclip
  refine ⟨⟨shape, hshape, ?_⟩, pairwise_edgeId hkept shapeId, hnonempty⟩
  intro e he
  obtain ⟨r, hr, rfl⟩ := List.mem_map.1 he
  obtain ⟨hr, hid⟩ := List.mem_filter.1 hr
  obtain ⟨shape', hshape', hedge⟩ := EdgeRef.mem_all.1 (hkept.subset hr)
  rw [of_decide_eq_true hid, hshape] at hshape'
  rw [← shape.isSome_edge?, Option.some.inj hshape', hedge]
  rfl

/-- A cell records no more edges than it keeps: each of them under one shape and once. -/
lemma edgeCount_le_of_leaf? (hkept : kept.Sublist (EdgeRef.all shapes)) {cell : IndexCell}
    (hcell : c.leaf? shapes id kept = some cell)
    (hasc : cell.clipped.Pairwise fun a b => a.shapeId < b.shapeId)
    (hedges : ∀ s ∈ cell.clipped, s.WellFormed shapes) : cell.edgeCount ≤ kept.length := by
  have hsubset : cell.places ⊆ kept.map fun r => (r.shapeId, r.edgeId) := by
    intro p hp
    obtain ⟨s, hs, hp⟩ := List.mem_flatMap.1 hp
    obtain ⟨e, he, rfl⟩ := List.mem_map.1 hp
    obtain ⟨r, hr, hshape, rfl⟩ :=
      (exists_mem_clipped_iff (fun r hr => hkept.subset hr) hcell).1 ⟨s, hs, rfl, he⟩
    rw [← hshape]
    exact List.mem_map_of_mem hr
  calc cell.edgeCount = cell.places.length := cell.length_places.symm
    _ ≤ (kept.map fun r => (r.shapeId, r.edgeId)).length :=
      (List.subperm_of_subset (IndexCell.nodup_places hasc hedges) hsubset).length_le
    _ = kept.length := List.length_map _

end Clipping

namespace Index

variable {clipping : Clipping} {shapes : List Shape} {settings : Settings}

/-- An index cell is well formed. -/
lemma wellFormed_of_mem_cells {cell : IndexCell}
    (hcell : cell ∈ (buildWith clipping shapes settings).cells) :
    cell.WellFormed settings shapes := by
  have hasc := pairwise_clipped hcell
  obtain ⟨id, hstops, hleaf⟩ := mem_cells_buildWith.1 hcell
  obtain ⟨h, n, ha⟩ := hstops.exists_at
  have hid : cell.id = id := Clipping.id_of_mem_leaf? hleaf
  have hkept : (clipping.survivors shapes id).Sublist (EdgeRef.all shapes) :=
    List.filter_sublist
  have hclipped : ∀ s ∈ cell.clipped, s.WellFormed shapes := by
    intro s hs
    rw [Clipping.clipped_of_leaf? hleaf] at hs
    obtain ⟨⟨shape, shapeId⟩, hshape, hclip⟩ := List.mem_filterMap.1 hs
    exact Clipping.wellFormed_of_clip? hkept (List.mk_mem_zipIdx_iff_getElem?.1 hshape) hclip
  refine ⟨hid ▸ ha.isValid, hid ▸ hstops.level_le, ?_, ?_, hasc, hclipped,
    fun _ _ => IndexCell.find?_eq_some_iff hasc⟩
  · intro hmany
    rw [hid]
    refine hstops.stops.resolve_right ?_
    have hle := Clipping.edgeCount_le_of_leaf? hkept hleaf hasc hclipped
    omega
  · simp only [Clipping.leaf?] at hleaf
    split at hleaf
    · exact absurd hleaf (by simp)
    · rename_i hsome
      rw [← Option.some.inj hleaf]
      rwa [List.isEmpty_iff] at hsome

/-- **The cells of an index** are well formed and disjoint, with their ranges one after the
other, whatever the answers to the geometric questions are. -/
theorem wellFormed_cells_buildWith (clipping : Clipping) (shapes : List Shape)
    (settings : Settings) :
    ((buildWith clipping shapes settings).cells.toList.Pairwise fun a b =>
        a.id.rangeMax < b.id.rangeMin ∧ a.id < b.id ∧ a.id.intersects b.id = false) ∧
      ∀ cell ∈ (buildWith clipping shapes settings).cells, cell.WellFormed settings shapes := by
  have ht := tiled_buildWith clipping shapes settings
  refine ⟨ht.pairwise.imp_of_mem ?_, fun cell hcell => wellFormed_of_mem_cells hcell⟩
  intro a b ha hb hab
  obtain ⟨h, n, haat⟩ := ht.exists_at a ha
  obtain ⟨h', n', hbat⟩ := ht.exists_at b hb
  have hrange := haat.rangeMax_lt_rangeMin hbat hab
  refine ⟨hrange, ?_, ?_⟩
  · have hlt := haat.lt_high
    have hlt' := hbat.low_lt
    rw [CellId.lt_iff_toNat]
    omega
  · simp only [CellId.intersects]
    rw [Bool.and_eq_false_iff, decide_eq_false_iff_not, CellId.le_iff_toNat, not_le,
      ← CellId.lt_iff_toNat]
    exact Or.inl hrange

end Index

end SphereSearch
