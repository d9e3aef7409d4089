import Mathlib.Order.Basic
import SphereSearch.Index.Cell

/-!
# The edges of shapes

The edges of a shape are numbered without a gap: there is an edge `e` exactly for the numbers
below the number of edges (`Shape.isSome_edge?`).  So the list of all edges of several shapes
names each of them by its place (`EdgeRef.mem_all`).
-/

namespace SphereSearch

lemma Loop.isSome_edge? (l : Loop) (j : ℕ) : (Loop.edge? l j).isSome ↔ j < l.size := by
  simp only [Loop.edge?]
  split <;> simp_all

lemma Loop.isSome_edgeAt? (loops : List Loop) (e : ℕ) :
    (Loop.edgeAt? loops e).isSome ↔ e < loops.foldr (fun l n => l.size + n) 0 := by
  induction loops generalizing e with
  | nil => simp [Loop.edgeAt?]
  | cons l rest ih =>
    simp only [Loop.edgeAt?]
    rw [List.foldr_cons]
    split
    · rw [Loop.isSome_edge?]
      omega
    · rw [ih]
      omega

/-- A shape has exactly the edges below the number of its edges. -/
lemma Shape.isSome_edge? (s : Shape) (e : ℕ) : (s.edge? e).isSome ↔ e < s.edgeCount := by
  cases s with
  | points ps => simp [Shape.edge?, Shape.edgeCount]
  | polyline vs =>
    show (vs[e]?.bind fun start => vs[e + 1]?.bind fun stop =>
      some (⟨start, stop⟩ : Edge)).isSome ↔ e < vs.size - 1
    by_cases h : e + 1 < vs.size
    · rw [Array.getElem?_eq_getElem (by omega), Array.getElem?_eq_getElem h]
      refine iff_of_true rfl ?_
      omega
    · have hnone : vs[e + 1]? = none := Array.getElem?_eq_none (Nat.not_lt.1 h)
      rw [hnone]
      refine iff_of_false ?_ (by omega)
      cases vs[e]? <;> simp
  | polygon p => exact Loop.isSome_edgeAt? p.loops e

/-- Looking up all numbers below `n`, each with an answer, lists the answers in order. -/
lemma getElem?_filterMap_range {α : Type} {f : ℕ → Option α} {n : ℕ}
    (h : ∀ i, i < n → (f i).isSome) :
    ((List.range n).filterMap f).length = n ∧
      ∀ i, i < n → ((List.range n).filterMap f)[i]? = f i := by
  induction n with
  | zero => exact ⟨rfl, fun i hi => absurd hi (Nat.not_lt_zero i)⟩
  | succ n ih =>
    obtain ⟨hlen, hget⟩ := ih fun i hi => h i (by omega)
    obtain ⟨a, ha⟩ := Option.isSome_iff_exists.1 (h n (Nat.lt_succ_self n))
    have hlast : (List.range (n + 1)).filterMap f = (List.range n).filterMap f ++ [a] := by
      rw [List.range_succ, List.filterMap_append, List.filterMap_cons_some ha,
        List.filterMap_nil]
    rw [hlast]
    refine ⟨by rw [List.length_append, hlen]; rfl, ?_⟩
    intro i hi
    rcases Nat.lt_succ_iff_lt_or_eq.1 hi with hi | rfl
    · rw [List.getElem?_append_left (by omega), hget i hi]
    · rw [List.getElem?_append_right (Nat.le_of_eq hlen), hlen, Nat.sub_self, ha]
      rfl

/-- A list is numbered in ascending order. -/
lemma pairwise_zipIdx {α : Type} (l : List α) : l.zipIdx.Pairwise fun p q => p.2 < q.2 := by
  rw [List.pairwise_iff_getElem]
  intro i j hi hj hij
  rw [List.getElem_zipIdx, List.getElem_zipIdx]
  exact Nat.add_lt_add_left hij 0

/-- The list of edges numbers them as the shape does. -/
lemma Shape.getElem?_edges (s : Shape) (e : ℕ) : s.edges[e]? = s.edge? e := by
  have hall : ∀ i, i < s.edgeCount → (s.edge? i).isSome := fun i hi => (s.isSome_edge? i).2 hi
  have hlen : s.edges.length = s.edgeCount := (getElem?_filterMap_range hall).1
  by_cases he : e < s.edgeCount
  · exact (getElem?_filterMap_range hall).2 e he
  · have hnone : s.edge? e = none := by
      rw [← Option.not_isSome_iff_eq_none, s.isSome_edge?]
      exact he
    rw [hnone, List.getElem?_eq_none_iff]
    omega

/-- An edge of several shapes is in the list of all of them under its place. -/
theorem EdgeRef.mem_all {shapes : List Shape} {r : EdgeRef} :
    r ∈ EdgeRef.all shapes ↔
      ∃ s, shapes[r.shapeId]? = some s ∧ s.edge? r.edgeId = some r.edge := by
  simp only [EdgeRef.all]
  rw [List.mem_flatMap]
  constructor
  · rintro ⟨⟨s, shapeId⟩, hs, hr⟩
    obtain ⟨⟨e, edgeId⟩, he, rfl⟩ := List.mem_map.1 hr
    rw [List.mk_mem_zipIdx_iff_getElem?] at hs he
    exact ⟨s, hs, by rw [← he, s.getElem?_edges]⟩
  · rintro ⟨s, hs, he⟩
    refine ⟨(s, r.shapeId), List.mk_mem_zipIdx_iff_getElem?.2 hs, ?_⟩
    refine List.mem_map.2 ⟨(r.edge, r.edgeId), ?_, rfl⟩
    rw [List.mk_mem_zipIdx_iff_getElem?, s.getElem?_edges, he]

/-- An edge is known by its place. -/
lemma EdgeRef.eq_of_mem_all {shapes : List Shape} {r s : EdgeRef} (hr : r ∈ EdgeRef.all shapes)
    (hs : s ∈ EdgeRef.all shapes) (hshape : r.shapeId = s.shapeId)
    (hedge : r.edgeId = s.edgeId) : r = s := by
  obtain ⟨shape, hget, he⟩ := mem_all.1 hr
  obtain ⟨shape', hget', he'⟩ := mem_all.1 hs
  obtain ⟨i, e, edge⟩ := r
  obtain ⟨j, f, edge'⟩ := s
  dsimp only at hshape hedge hget he hget' he'
  subst hshape hedge
  rw [hget] at hget'
  obtain rfl := Option.some.inj hget'
  rw [he] at he'
  rw [Option.some.inj he']

/-- The edges of several shapes are listed by shape and then by number. -/
lemma EdgeRef.pairwise_all (shapes : List Shape) :
    (EdgeRef.all shapes).Pairwise fun a b =>
      a.shapeId < b.shapeId ∨ a.shapeId = b.shapeId ∧ a.edgeId < b.edgeId := by
  simp only [EdgeRef.all]
  rw [List.pairwise_flatMap]
  constructor
  · rintro ⟨shape, shapeId⟩ -
    rw [List.pairwise_map]
    exact (pairwise_zipIdx shape.edges).imp fun hlt => Or.inr ⟨rfl, hlt⟩
  · refine (pairwise_zipIdx shapes).imp ?_
    rintro ⟨s, i⟩ ⟨t, j⟩ hij a ha b hb
    obtain ⟨p, -, rfl⟩ := List.mem_map.1 ha
    obtain ⟨q, -, rfl⟩ := List.mem_map.1 hb
    exact Or.inl hij

end SphereSearch
