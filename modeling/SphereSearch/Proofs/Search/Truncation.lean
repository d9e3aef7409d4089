import SphereSearch.Proofs.Search.Containing
import SphereSearch.Search.Visit

/-!
# A limited number of shapes around a target

The shapes around a target are found by loops in loops, some of them several times, and in no order
(`Target.visitContaining`).  As what a visitor asks goes up through all loops, it is shown a single
list until it has enough (`Target.visitContaining_eq`), and one that stops at a limit has as many
different shapes as there are, up to the limit (`Search.length_firstIds`).  So a limit takes a part
of what is found without one (`Target.containing_truncated`).
-/

namespace SphereSearch

variable {α β σ : Type}

/-! ### One list for all loops -/

section visitAll

variable {visit : σ → α → σ × Bool}

lemma visitAll_cons_of_true {s : σ} {a : α} (h : (visit s a).2 = true) (l : List α) :
    visitAll visit s (a :: l) = visitAll visit (visit s a).1 l := by
  rw [visitAll, if_pos h]

lemma visitAll_cons_of_false {s : σ} {a : α} (h : (visit s a).2 = false) (l : List α) :
    visitAll visit s (a :: l) = visit s a := by
  rw [visitAll, h, if_neg Bool.false_ne_true]

lemma visitAll_singleton (s : σ) (a : α) : visitAll visit s [a] = visit s a := by
  cases h : (visit s a).2 with
  | true => rw [visitAll_cons_of_true h, visitAll, ← h]
  | false => exact visitAll_cons_of_false h []

/-- Showing a longer list is going on after the shorter one, unless the visitor has stopped. -/
lemma visitAll_append (s : σ) (l l' : List α) : visitAll visit s (l ++ l') =
    if (visitAll visit s l).2 then visitAll visit (visitAll visit s l).1 l'
    else visitAll visit s l := by
  induction l generalizing s with
  | nil => rfl
  | cons a l ih =>
    rw [List.cons_append]
    cases h : (visit s a).2 with
    | true => rw [visitAll_cons_of_true h, visitAll_cons_of_true h, ih]
    | false =>
      rw [visitAll_cons_of_false h, visitAll_cons_of_false h, h, if_neg Bool.false_ne_true]

/-- A loop that shows a list for each element shows all of them in one. -/
lemma visitAll_flatMap (f : β → List α) (s : σ) (l : List β) :
    visitAll (fun s b => visitAll visit s (f b)) s l = visitAll visit s (l.flatMap f) := by
  induction l generalizing s with
  | nil => rfl
  | cons b l ih => rw [List.flatMap_cons, visitAll_append, ← ih, visitAll]

/-- A loop that leaves out some elements and shows something of the others. -/
lemma visitAll_filter_map (keep : β → Bool) (f : β → α) (s : σ) (l : List β) :
    visitAll (fun s b => if keep b then visit s (f b) else (s, true)) s l =
      visitAll visit s ((l.filter keep).map f) := by
  induction l generalizing s with
  | nil => rfl
  | cons b l ih =>
    cases h : keep b with
    | true =>
      rw [List.filter_cons_of_pos h, List.map_cons, visitAll, visitAll, h, if_pos rfl, ih]
    | false =>
      rw [List.filter_cons_of_neg (by rw [h]; exact Bool.false_ne_true), ← ih, visitAll, h]
      rfl

end visitAll

namespace Index

variable (x : Index) (visit : σ → ℕ → σ × Bool)

lemma visitHolding_eq (cell : IndexCell) (p : Point) (s : σ) :
    x.visitHolding visit cell p s = visitAll visit s (x.holding cell p) := by
  rw [holding, regional, List.filter_filter, ← visitAll_filter_map, visitHolding]
  congr 1
  funext s clipped
  cases (x.shapes[clipped.shapeId]?).any Shape.hasInterior with
  | true => simp
  | false => simp

lemma visitRegional_eq (cell : IndexCell) (s : σ) :
    x.visitRegional visit cell s = visitAll visit s ((x.regional cell).map (·.shapeId)) := by
  rw [regional, ← visitAll_filter_map]
  rfl

lemma visitAt_eq (s : σ) (p : Point) : x.visitAt visit s p = visitAll visit s (x.shapesAt p) := by
  rw [visitAt, shapesAt]
  cases x.locatePoint? p with
  | some cell => exact x.visitHolding_eq visit cell p s
  | none => rfl

lemma visitAround_eq (s : σ) (c : Cell) :
    x.visitAround visit s c = visitAll visit s (x.shapesAround c) := by
  rw [visitAround, shapesAround]
  cases x.locate c.id with
  | indexed position =>
    dsimp only
    cases x.cells[position]? with
    | some cell => exact x.visitHolding_eq visit cell c.center s
    | none => rfl
  | subdivided =>
    dsimp only
    cases x.cells[x.seek c.id.rangeMin]? with
    | some cell => exact x.visitRegional_eq visit cell s
    | none => rfl
  | disjoint => rfl

end Index

/-- A shape of another index is looked up at the points that stand for it. -/
lemma Index.visitShape_eq (x : Index) (visit : σ → ℕ → σ × Bool) (s : σ) (shape : Shape) :
    x.visitShape visit s shape = visitAll visit s (shape.representatives.flatMap x.shapesAt) := by
  have hloop : x.visitAt visit = fun s p => visitAll visit s (x.shapesAt p) := by
    funext s p
    exact x.visitAt_eq visit s p
  rw [visitShape, Shape.representatives, ← visitAll_flatMap, hloop]
  cases shape.chainStarts with
  | nil =>
    cases shape.reference.contained with
    | true => exact (visitAll_singleton ..).symm
    | false => rfl
  | cons first rest => simp only [reduceCtorEq, false_and, if_false]

namespace Search

namespace Target

variable (t : Target) (x : Index)

/-- A visitor is shown what is found. -/
lemma visitContaining_eq (visit : σ → ℕ → σ × Bool) (s : σ) :
    t.visitContaining x visit s = visitAll visit s (t.shapesAround x) := by
  cases t with
  | site site =>
    cases site with
    | point p => exact x.visitAt_eq visit s p
    | edge e => exact x.visitAt_eq visit s _
    | cell c => exact x.visitAround_eq visit s c
  | index t =>
    have hloop : x.visitShape visit =
        fun s shape => visitAll visit s (shape.representatives.flatMap x.shapesAt) := by
      funext s shape
      exact x.visitShape_eq visit s shape
    rw [visitContaining, hloop, visitAll_flatMap, shapesAround, t.representatives_eq,
      List.flatMap_assoc]

end Target

/-! ### Until there are enough -/

/-- A collector that stops at a limit has the first different numbers. -/
lemma visitAll_collectId {limit : ℕ} (ids : List ℕ) {sorted : List ℕ}
    (hlen : sorted.length < limit) :
    (visitAll (collectId limit) sorted ids).1 = ids.foldl (insertBelow limit) sorted := by
  induction ids generalizing sorted with
  | nil => rfl
  | cons id ids ih =>
    rw [List.foldl_cons, insertBelow, if_pos hlen]
    by_cases hnext : (insertId id sorted).length < limit
    · rw [visitAll_cons_of_true (decide_eq_true hnext)]
      exact ih hnext
    · rw [visitAll_cons_of_false (decide_eq_false hnext),
        foldl_insertBelow_of_full (not_lt.1 hnext)]
      rfl

/-- Shapes that are collected one by one, and no more of them looked for than wanted, are the same as
the first of all that are found. -/
theorem Target.containing_eq_collectContaining (t : Target) (x : Index) (limit : ℕ) :
    t.containing x limit = t.collectContaining x limit := by
  rw [containing_eq, collectContaining, visitContaining_eq, firstIds]
  split
  · rename_i hzero
    exact foldl_insertBelow_of_full (hzero ▸ Nat.zero_le _) _
  · rename_i hpos
    exact (visitAll_collectId _ (Nat.pos_of_ne_zero hpos)).symm

/-! ### How many there are -/

lemma pairwise_firstIds (limit : ℕ) (ids : List ℕ) : (firstIds limit ids).Pairwise (· < ·) := by
  refine List.foldlRecOn (motive := List.Pairwise (· < ·)) ids _ .nil fun sorted h id _ => ?_
  rw [insertBelow]
  split
  · exact pairwise_insertId h
  · exact h

lemma toFinset_insertId (id : ℕ) (sorted : List ℕ) :
    (insertId id sorted).toFinset = insert id sorted.toFinset := by
  ext other
  rw [List.mem_toFinset, mem_insertId, Finset.mem_insert, List.mem_toFinset]

lemma length_insertId_le (id : ℕ) (sorted : List ℕ) :
    (insertId id sorted).length ≤ sorted.length + 1 := by
  induction sorted with
  | nil => rfl
  | cons n rest ih =>
    simp only [insertId]
    split
    · rfl
    · split
      · exact Nat.le_succ _
      · exact Nat.succ_le_succ ih

/-- As many as there are different ones, up to the limit. -/
lemma length_firstIds (limit : ℕ) (ids : List ℕ) :
    (firstIds limit ids).length = min limit ids.toFinset.card := by
  have hfold : ∀ ids sorted : List ℕ, sorted.Pairwise (· < ·) → sorted.length ≤ limit →
      (ids.foldl (insertBelow limit) sorted).length =
        min limit (sorted.toFinset ∪ ids.toFinset).card := by
    intro ids
    induction ids with
    | nil =>
      intro sorted hsorted hlen
      rw [List.toFinset_nil, Finset.union_empty, List.toFinset_card_of_nodup hsorted.nodup,
        Nat.min_eq_right hlen]
      rfl
    | cons id rest ih =>
      intro sorted hsorted hlen
      rw [List.foldl_cons]
      by_cases hlt : sorted.length < limit
      · have hle := length_insertId_le id sorted
        rw [insertBelow, if_pos hlt, ih _ (pairwise_insertId hsorted) (by omega),
          toFinset_insertId, List.toFinset_cons, Finset.union_insert, Finset.insert_union]
      · have hcard : sorted.length ≤ (sorted.toFinset ∪ (id :: rest).toFinset).card := by
          rw [← List.toFinset_card_of_nodup hsorted.nodup]
          exact Finset.card_le_card Finset.subset_union_left
        rw [insertBelow, if_neg hlt, foldl_insertBelow_of_full (not_lt.1 hlt)]
        omega
  have h := hfold ids [] .nil (Nat.zero_le _)
  rwa [List.toFinset_nil, Finset.empty_union] at h

namespace Target

variable {t : Target} {x : Index} {id : ℕ}

/-- There are no more different shapes than the index has. -/
lemma card_shapesAround_le : (t.shapesAround x).toFinset.card ≤ x.shapes.size := by
  rw [← Finset.card_range x.shapes.size]
  refine Finset.card_le_card fun i hi => Finset.mem_range.2 ?_
  exact (regional_of_mem_shapesAround (List.mem_toFinset.1 hi)).hasInterior.lt_size

/-- Only polygons have an interior. -/
lemma exists_polygon_of_mem_containing {limit : ℕ} (h : id ∈ t.containing x limit) :
    ∃ p, x.shapes[id]? = some (.polygon p) := by
  obtain ⟨s, hs, hinterior⟩ := hasInterior_of_mem_containing h
  cases s with
  | points ps => exact absurd hinterior Bool.false_ne_true
  | polyline vs => exact absurd hinterior Bool.false_ne_true
  | polygon p => exact ⟨p, hs⟩

/-- An index is looked up at the points that stand for its shapes. -/
lemma mem_containing_index_iff (hx : x.shapes.size ≤ unlimited) (other : IndexTarget) :
    id ∈ (index other).containing x unlimited ↔ ∃ s ∈ other.index.shapes,
      ∃ p ∈ s.representatives, id ∈ (site (.point p)).containing x unlimited := by
  simp only [mem_containing_unlimited hx]
  constructor
  · intro h
    obtain ⟨p, hp, hid⟩ := List.mem_flatMap.1 h
    obtain ⟨s, hs, hp⟩ := IndexTarget.mem_representatives.1 hp
    exact ⟨s, hs, p, hp, hid⟩
  · rintro ⟨s, hs, p, hp, hid⟩
    exact List.mem_flatMap.2 ⟨p, IndexTarget.mem_representatives.2 ⟨s, hs, hp⟩, hid⟩

/-- **A limit truncates.**  Whatever the target, the shapes around it are polygons of the index in
ascending order.  A limit takes some of those that there are without one, and as many as it allows.
For the geometry of an index these are the shapes around the starts of its chains of edges, and
around the points inside shapes without edges; and a search that stops at once when it has enough
finds the same. -/
theorem containing_truncated (t : Target) (x : Index) (hx : x.shapes.size < 2 ^ 31) (limit : ℕ) :
    (t.containing x limit).Pairwise (· < ·) ∧
      (∀ id ∈ t.containing x limit, ∃ p, x.shapes[id]? = some (.polygon p)) ∧
      (∀ id ∈ t.containing x limit, id ∈ t.containing x unlimited) ∧
      (t.containing x limit).length = min limit (t.containing x unlimited).length ∧
      (∀ other : IndexTarget, t = .index other → ∀ id, id ∈ t.containing x unlimited ↔
        ∃ s ∈ other.index.shapes,
          (∃ p ∈ s.chainStarts, id ∈ (site (.point p)).containing x unlimited) ∨
            s.chainStarts = [] ∧ s.reference.contained = true ∧
              id ∈ (site (.point s.reference.point)).containing x unlimited) ∧
      t.containing x limit = t.collectContaining x limit := by
  have hsize : x.shapes.size ≤ unlimited := hx.le.trans (by decide)
  refine ⟨?_, fun id => exists_polygon_of_mem_containing, fun id h => ?_, ?_, ?_,
    t.containing_eq_collectContaining x limit⟩
  · rw [containing_eq]
    exact pairwise_firstIds limit _
  · rw [containing_eq] at h
    exact (mem_containing_unlimited hsize).2 (mem_of_mem_firstIds h)
  · have hcard : (t.shapesAround x).toFinset.card ≤ unlimited := card_shapesAround_le.trans hsize
    rw [containing_eq, containing_eq, length_firstIds, length_firstIds, Nat.min_eq_right hcard]
  · rintro other rfl id
    rw [mem_containing_index_iff hsize]
    refine exists_congr fun s => and_congr_right fun _ => ?_
    constructor
    · rintro ⟨p, hp, h⟩
      rcases Shape.mem_representatives.1 hp with hstart | ⟨hnone, hcontained, rfl⟩
      · exact Or.inl ⟨p, hstart, h⟩
      · exact Or.inr ⟨hnone, hcontained, h⟩
    · rintro (⟨p, hp, h⟩ | ⟨hnone, hcontained, h⟩)
      · exact ⟨p, Shape.mem_representatives.2 (Or.inl hp), h⟩
      · exact ⟨_, Shape.mem_representatives.2 (Or.inr ⟨hnone, hcontained, rfl⟩), h⟩

/-- The whole sphere twice and a point, around the geometry of an index of the same kind. -/
theorem containing_truncated_full :
    let x := Index.build [.polygon .full, .points #[Point.north], .polygon .full] .default
    let t := index (.exact (Index.build [.polygon .full, .points #[Point.north]] .default) true)
    x.shapes.size < 2 ^ 31 ∧ t.containing x unlimited = [0, 2] ∧
      (t.containing x 1).length = 1 ∧ t.containing x 1 = t.collectContaining x 1 := by
  intro x t
  have hx : x.shapes.size < 2 ^ 31 := by decide
  have hall : t.containing x unlimited = [0, 2] := by decide +kernel
  obtain ⟨-, -, -, hlength, -, hcollect⟩ := containing_truncated t x hx 1
  rw [hall] at hlength
  exact ⟨hx, hall, hlength, hcollect⟩

end Target

end Search

end SphereSearch
