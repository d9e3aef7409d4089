import Mathlib.Data.Finset.Card
import SphereSearch.Proofs.Index.Coverage
import SphereSearch.Proofs.Index.Navigation
import SphereSearch.Search.Target

/-!
# Shapes around a target

The shapes whose interior holds a part of a target are found among those that have an interior and
an entry in some index cell (`Target.regional_of_mem_containing`).
A limit on their number keeps those that are found first: a greater limit leaves out no more
(`mem_firstIds_mono`), one that no shape exceeds leaves out none (`mem_firstIds_of_mem`), and if
they are found in ascending order, as near a point, an edge or a cell, the least are kept
(`firstIds_eq_take`, `Site.pairwise_shapesAround`).
-/

namespace SphereSearch

namespace Index

variable {x : Index}

/-- There is a shape with an interior under a number. -/
def HasInterior (x : Index) (id : ℕ) : Prop := ∃ s, x.shapes[id]? = some s ∧ s.hasInterior = true

lemma HasInterior.lt_size {id : ℕ} (h : x.HasInterior id) : id < x.shapes.size := by
  obtain ⟨s, hs, -⟩ := h
  exact (Array.getElem?_eq_some_iff.1 hs).1

/-- A shape of an index cell that has an interior. -/
def Regional (x : Index) (id : ℕ) : Prop :=
  ∃ cell ∈ x.cells, ∃ s ∈ x.regional cell, s.shapeId = id

lemma Regional.hasInterior {id : ℕ} (h : x.Regional id) : x.HasInterior id := by
  obtain ⟨cell, -, s, hs, rfl⟩ := h
  have hany := (List.mem_filter.1 hs).2
  rw [Option.any_eq_true] at hany
  exact hany

lemma regional_of_mem_holding {cell : IndexCell} (hcell : cell ∈ x.cells) {p : Point} {id : ℕ}
    (h : id ∈ x.holding cell p) : x.Regional id := by
  obtain ⟨s, hs, rfl⟩ := List.mem_map.1 h
  exact ⟨cell, hcell, s, (List.mem_filter.1 hs).1, rfl⟩

lemma mem_cells_of_locatePoint? {p : Point} {cell : IndexCell}
    (h : x.locatePoint? p = some cell) : cell ∈ x.cells := by
  simp only [locatePoint?] at h
  split at h
  · exact Array.mem_of_getElem? h
  · exact absurd h (by simp)

/-- A shape around a point has an interior and an entry in some index cell. -/
lemma regional_of_mem_shapesAt {p : Point} {id : ℕ} (h : id ∈ x.shapesAt p) : x.Regional id := by
  simp only [shapesAt] at h
  split at h
  · rename_i cell hcell
    exact regional_of_mem_holding (mem_cells_of_locatePoint? hcell) h
  · exact absurd h List.not_mem_nil

lemma regional_of_mem_shapesAround {c : Cell} {id : ℕ} (h : id ∈ x.shapesAround c) :
    x.Regional id := by
  simp only [shapesAround] at h
  split at h
  · split at h
    · rename_i cell hcell
      exact regional_of_mem_holding (Array.mem_of_getElem? hcell) h
    · exact absurd h List.not_mem_nil
  · split at h
    · rename_i cell hcell
      obtain ⟨s, hs, rfl⟩ := List.mem_map.1 h
      exact ⟨cell, Array.mem_of_getElem? hcell, s, hs, rfl⟩
    · exact absurd h List.not_mem_nil
  · exact absurd h List.not_mem_nil

/-- The shapes around a point are read off the index cell that holds its leaf. -/
lemma shapesAt_eq_holding {c : Clipping} {shapes : List Shape} {settings : Settings} {id : CellId}
    (hstops : c.StopsAt settings shapes id) {cell : IndexCell}
    (hleaf : c.leaf? shapes id (c.survivors shapes id) = some cell) {p : Point} {n : ℕ}
    (hp : (CellId.ofPoint p).At 0 n) (hold : id.Holds (CellId.ofPoint p)) :
    (buildWith c shapes settings).shapesAt p = (buildWith c shapes settings).holding cell p := by
  obtain ⟨i, hi⟩ := Array.mem_iff_getElem?.1 (mem_cells_buildWith.2 ⟨id, hstops, hleaf⟩)
  have hid : cell.id = id := Clipping.id_of_mem_leaf? hleaf
  rw [← hid] at hold
  simp only [shapesAt, locatePoint?]
  rw [locate_eq_indexed (tiled_buildWith c shapes settings) hp hi hold]
  dsimp only
  rw [hi]

/-! ### Ascending lists -/

section Ascending

variable (hx : ∀ cell ∈ x.cells, cell.clipped.Pairwise fun a b => a.shapeId < b.shapeId)

include hx

lemma pairwise_holding {cell : IndexCell} (hcell : cell ∈ x.cells) (p : Point) :
    (x.holding cell p).Pairwise (· < ·) :=
  List.pairwise_map.2 (((hx cell hcell).filter _).filter _)

lemma pairwise_shapesAt (p : Point) : (x.shapesAt p).Pairwise (· < ·) := by
  simp only [shapesAt]
  split
  · rename_i cell hcell
    exact pairwise_holding hx (mem_cells_of_locatePoint? hcell) p
  · exact .nil

lemma pairwise_shapesAround (c : Cell) : (x.shapesAround c).Pairwise (· < ·) := by
  simp only [shapesAround]
  split
  · split
    · rename_i cell hcell
      exact pairwise_holding hx (Array.mem_of_getElem? hcell) _
    · exact .nil
  · split
    · rename_i cell hcell
      exact List.pairwise_map.2 ((hx cell (Array.mem_of_getElem? hcell)).filter _)
    · exact .nil
  · exact .nil

end Ascending

end Index

/-- The points of a shape that stand for it in another index. -/
def Shape.representatives (s : Shape) : List Point :=
  if s.chainStarts = [] ∧ s.reference.contained then [s.reference.point] else s.chainStarts

lemma Shape.mem_representatives {s : Shape} {p : Point} : p ∈ s.representatives ↔
    p ∈ s.chainStarts ∨
      s.chainStarts = [] ∧ s.reference.contained = true ∧ p = s.reference.point := by
  rw [representatives]
  split
  · rename_i h
    obtain ⟨hnone, hcontained⟩ := h
    rw [List.mem_singleton, hnone]
    simp [hcontained]
  · rename_i h
    rw [or_iff_left]
    rintro ⟨hnone, hcontained, -⟩
    exact h ⟨hnone, hcontained⟩

namespace Search

lemma IndexTarget.representatives_eq (t : IndexTarget) :
    t.representatives = t.index.shapes.toList.flatMap Shape.representatives := by
  rw [representatives]
  congr 1
  funext s
  rw [Shape.representatives]
  cases s.chainStarts with
  | nil =>
    cases s.reference.contained with
    | true => rfl
    | false => rfl
  | cons first rest => simp only [reduceCtorEq, false_and, if_false]

lemma IndexTarget.mem_representatives {t : IndexTarget} {p : Point} :
    p ∈ t.representatives ↔ ∃ s ∈ t.index.shapes, p ∈ s.representatives := by
  rw [representatives_eq]
  simp only [List.mem_flatMap, Array.mem_toList_iff]

/-- The shapes around a simple target are found in ascending order. -/
lemma Site.pairwise_shapesAround {x : Index}
    (hx : ∀ cell ∈ x.cells, cell.clipped.Pairwise fun a b => a.shapeId < b.shapeId) (s : Site) :
    (s.shapesAround x).Pairwise (· < ·) := by
  cases s with
  | point p => exact Index.pairwise_shapesAt hx p
  | edge e => exact Index.pairwise_shapesAt hx _
  | cell c => exact Index.pairwise_shapesAround hx c

/-! ### The first different numbers -/

lemma mem_insertId {id other : ℕ} {l : List ℕ} :
    other ∈ insertId id l ↔ other = id ∨ other ∈ l := by
  induction l with
  | nil => simp [insertId]
  | cons n rest ih =>
    simp only [insertId]
    split
    · simp
    · split
      · rename_i heq
        subst heq
        simp
      · rw [List.mem_cons, ih, List.mem_cons, or_left_comm]

lemma mem_of_mem_insertBelow {limit id other : ℕ} {sorted : List ℕ}
    (h : other ∈ insertBelow limit sorted id) : other = id ∨ other ∈ sorted := by
  simp only [insertBelow] at h
  split at h
  · exact mem_insertId.1 h
  · exact Or.inr h

lemma mem_insertBelow_of_mem {limit id other : ℕ} {sorted : List ℕ} (h : other ∈ sorted) :
    other ∈ insertBelow limit sorted id := by
  simp only [insertBelow]
  split
  · exact mem_insertId.2 (Or.inr h)
  · exact h

/-- No number gets lost. -/
lemma mem_foldl_insertBelow_of_mem {limit id : ℕ} (ids : List ℕ) {sorted : List ℕ}
    (h : id ∈ sorted) : id ∈ ids.foldl (insertBelow limit) sorted :=
  List.foldlRecOn (motive := (id ∈ ·)) ids _ h fun _ h _ _ => mem_insertBelow_of_mem h

lemma foldl_insertBelow_of_full {limit : ℕ} {sorted : List ℕ} (h : limit ≤ sorted.length)
    (ids : List ℕ) : ids.foldl (insertBelow limit) sorted = sorted := by
  induction ids with
  | nil => rfl
  | cons n rest ih => rw [List.foldl_cons, insertBelow, if_neg (not_lt.2 h), ih]

lemma mem_of_mem_firstIds {limit id : ℕ} {ids : List ℕ} (h : id ∈ firstIds limit ids) :
    id ∈ ids := by
  have hfold : ∀ ids sorted : List ℕ,
      id ∈ ids.foldl (insertBelow limit) sorted → id ∈ sorted ∨ id ∈ ids := by
    intro ids
    induction ids with
    | nil => exact fun _ h => Or.inl h
    | cons n rest ih =>
      intro sorted h
      rcases ih _ h with h | h
      · rcases mem_of_mem_insertBelow h with rfl | h
        · exact Or.inr List.mem_cons_self
        · exact Or.inl h
      · exact Or.inr (List.mem_cons_of_mem _ h)
  exact (hfold ids [] h).resolve_left List.not_mem_nil

/-- A greater limit leaves out no more. -/
lemma mem_firstIds_mono {limit limit' id : ℕ} (hle : limit ≤ limit') {ids : List ℕ}
    (h : id ∈ firstIds limit ids) : id ∈ firstIds limit' ids := by
  -- As long as the smaller limit is not reached, both lists are the same.
  have hfold : ∀ ids sorted : List ℕ, id ∈ ids.foldl (insertBelow limit) sorted →
      id ∈ ids.foldl (insertBelow limit') sorted := by
    intro ids
    induction ids with
    | nil => exact fun _ h => h
    | cons n rest ih =>
      intro sorted h
      by_cases hlt : sorted.length < limit
      · have heq : insertBelow limit sorted n = insertBelow limit' sorted n := by
          rw [insertBelow, insertBelow, if_pos hlt, if_pos (hlt.trans_le hle)]
        rw [List.foldl_cons, heq] at h
        exact ih _ h
      · rw [foldl_insertBelow_of_full (not_lt.1 hlt)] at h
        exact mem_foldl_insertBelow_of_mem rest (mem_insertBelow_of_mem h)
  exact hfold ids [] h

lemma pairwise_insertId {id : ℕ} {sorted : List ℕ} (h : sorted.Pairwise (· < ·)) :
    (insertId id sorted).Pairwise (· < ·) := by
  induction sorted with
  | nil => exact List.pairwise_singleton _ _
  | cons n rest ih =>
    obtain ⟨hlt, hrest⟩ := List.pairwise_cons.1 h
    simp only [insertId]
    split
    · rename_i hless
      refine List.pairwise_cons.2 ⟨fun m hm => ?_, h⟩
      rcases List.mem_cons.1 hm with rfl | hm
      · exact hless
      · exact hless.trans (hlt m hm)
    · split
      · exact h
      · rename_i hge hne
        refine List.pairwise_cons.2 ⟨fun m hm => ?_, ih hrest⟩
        rcases mem_insertId.1 hm with rfl | hm
        · omega
        · exact hlt m hm

/-- A limit that no number reaches leaves out none. -/
lemma mem_firstIds_of_mem {limit n id : ℕ} {ids : List ℕ} (hn : n ≤ limit)
    (hids : ∀ i ∈ ids, i < n) (h : id ∈ ids) : id ∈ firstIds limit ids := by
  have hfold : ∀ ids sorted : List ℕ, (∀ i ∈ ids, i < n) → (∀ i ∈ sorted, i < n) →
      sorted.Pairwise (· < ·) → id ∈ ids → id ∈ ids.foldl (insertBelow limit) sorted := by
    intro ids
    induction ids with
    | nil => exact fun _ _ _ _ h => absurd h List.not_mem_nil
    | cons first rest ih =>
      intro sorted hids hsorted hpairwise hid
      have hfirst := hids first List.mem_cons_self
      have hrest := fun i hi => hids i (List.mem_cons_of_mem _ hi)
      rw [List.foldl_cons]
      by_cases hlt : sorted.length < limit
      · rw [insertBelow, if_pos hlt]
        rcases List.mem_cons.1 hid with rfl | hid
        · exact mem_foldl_insertBelow_of_mem rest (mem_insertId.2 (Or.inl rfl))
        · refine ih _ hrest (fun i hi => ?_) (pairwise_insertId hpairwise) hid
          rcases mem_insertId.1 hi with rfl | hi
          · exact hfirst
          · exact hsorted i hi
      · -- The list is full, so that it has all numbers.
        have hsub : List.Subperm sorted (List.range n) :=
          List.subperm_of_subset hpairwise.nodup fun i hi => List.mem_range.2 (hsorted i hi)
        have hperm : sorted.Perm (List.range n) :=
          hsub.perm_of_length_le (by rw [List.length_range]; omega)
        have hmem : id ∈ sorted := hperm.mem_iff.2 (List.mem_range.2 (hids id hid))
        exact mem_foldl_insertBelow_of_mem rest (mem_insertBelow_of_mem hmem)
  exact hfold ids [] hids (fun _ h => absurd h List.not_mem_nil) .nil h

lemma insertId_append {sorted : List ℕ} {id : ℕ} (h : ∀ n ∈ sorted, n < id) :
    insertId id sorted = sorted ++ [id] := by
  induction sorted with
  | nil => rfl
  | cons n rest ih =>
    have hlt : n < id := h n List.mem_cons_self
    simp only [insertId]
    rw [if_neg (by omega), if_neg (by omega),
      ih fun m hm => h m (List.mem_cons_of_mem _ hm), List.cons_append]

/-- The first numbers of an ascending list are its first elements. -/
lemma firstIds_eq_take {limit : ℕ} {ids : List ℕ} (h : ids.Pairwise (· < ·)) :
    firstIds limit ids = ids.take limit := by
  have hfold : ∀ ids sorted : List ℕ, (sorted ++ ids).Pairwise (· < ·) →
      sorted.length ≤ limit →
      ids.foldl (insertBelow limit) sorted = (sorted ++ ids).take limit := by
    intro ids
    induction ids with
    | nil =>
      intro sorted _ hlen
      rw [List.append_nil, List.take_of_length_le hlen]
      rfl
    | cons n rest ih =>
      intro sorted hsorted hlen
      rw [List.foldl_cons]
      by_cases hlt : sorted.length < limit
      · have hbelow : ∀ m ∈ sorted, m < n :=
          fun m hm => (List.pairwise_append.1 hsorted).2.2 m hm n List.mem_cons_self
        rw [insertBelow, if_pos hlt, insertId_append hbelow, ih _ (by simpa using hsorted)
          (by rw [List.length_append]; exact hlt), List.append_assoc, List.singleton_append]
      · rw [insertBelow, if_neg hlt, foldl_insertBelow_of_full (not_lt.1 hlt),
          List.take_append_of_le_length (not_lt.1 hlt), List.take_of_length_le hlen]
  exact hfold ids [] h (Nat.zero_le _)

/-- The shapes of an index whose interior holds a part of the target, as they are found. -/
def Target.shapesAround (t : Target) (x : Index) : List ℕ :=
  match t with
  | site s => s.shapesAround x
  | index t => t.representatives.flatMap x.shapesAt

lemma Target.containing_eq (t : Target) (x : Index) (limit : ℕ) :
    t.containing x limit = firstIds limit (t.shapesAround x) := by
  cases t with
  | site s => rfl
  | index t => rfl

/-- A shape around a target is one of the shapes of the index with an interior, and has an entry in
some index cell. -/
lemma Target.regional_of_mem_shapesAround {t : Target} {x : Index} {id : ℕ}
    (h : id ∈ t.shapesAround x) : x.Regional id := by
  cases t with
  | site s =>
    cases s with
    | point p => exact Index.regional_of_mem_shapesAt h
    | edge e => exact Index.regional_of_mem_shapesAt h
    | cell c => exact Index.regional_of_mem_shapesAround h
  | index t =>
    obtain ⟨p, -, hid⟩ := List.mem_flatMap.1 h
    exact Index.regional_of_mem_shapesAt hid

lemma Target.regional_of_mem_containing {t : Target} {x : Index} {limit id : ℕ}
    (h : id ∈ t.containing x limit) : x.Regional id := by
  rw [containing_eq] at h
  exact regional_of_mem_shapesAround (mem_of_mem_firstIds h)

lemma Target.hasInterior_of_mem_containing {t : Target} {x : Index} {limit id : ℕ}
    (h : id ∈ t.containing x limit) : x.HasInterior id :=
  (regional_of_mem_containing h).hasInterior

lemma Target.lt_of_mem_containing {t : Target} {x : Index} {limit id : ℕ}
    (h : id ∈ t.containing x limit) : id < x.shapes.size :=
  (hasInterior_of_mem_containing h).lt_size

/-- Without a limit all that are found are kept. -/
lemma Target.mem_containing_unlimited {t : Target} {x : Index} {id : ℕ}
    (hx : x.shapes.size ≤ unlimited) :
    id ∈ t.containing x unlimited ↔ id ∈ t.shapesAround x := by
  rw [containing_eq]
  exact ⟨mem_of_mem_firstIds, mem_firstIds_of_mem hx fun i hi =>
    (regional_of_mem_shapesAround hi).hasInterior.lt_size⟩

end Search

end SphereSearch
