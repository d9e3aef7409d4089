import Mathlib.Data.Finset.Sort
import Mathlib.Data.Prod.Lex
import SphereSearch.Proofs.Sphere.ChordOrder
import SphereSearch.Search.Result

/-!
# The order of results

Results compare by distance, then by shape, then by edge, which makes their order linear.  The
lists that a collector keeps are therefore determined by their members: inserting into the
ascending list of a finite set gives the ascending list of the set with one more element
(`insert_sort`), and the first `k` elements of the list are those with fewer than `k` elements
below them (`mem_take_sort`).
-/

namespace SphereSearch.Search

namespace Result

/-- A result as a tuple whose lexicographic order is the order of results. -/
def key (r : Result) : Chord ×ₗ ℤ ×ₗ ℤ := toLex (r.distance, toLex (r.shapeId, r.edgeId))

lemma key_injective : Function.Injective key := by
  rintro ⟨d, s, e⟩ ⟨d', s', e'⟩ h
  simp only [key, EmbeddingLike.apply_eq_iff_eq, Prod.mk.injEq] at h
  obtain ⟨rfl, rfl, rfl⟩ := h
  rfl

/-- The lexicographic order of these tuples. -/
abbrev keyOrder : LinearOrder (Chord ×ₗ ℤ ×ₗ ℤ) :=
  @Prod.Lex.instLinearOrder _ _ _ (@Prod.Lex.instLinearOrder _ _ Int.instLinearOrder
    Int.instLinearOrder)

instance : LinearOrder Result where
  __ := @PartialOrder.lift _ _ keyOrder.toPartialOrder key key_injective
  le_total r s := keyOrder.le_total r.key s.key
  toDecidableLE r s := keyOrder.toDecidableLE r.key s.key
  toDecidableLT r s := keyOrder.toDecidableLT r.key s.key
  toDecidableEq := inferInstance
  compare_eq_compareOfLessAndEq r s := by
    have hkey : compare r s = keyOrder.compare r.key s.key := rfl
    rw [hkey, keyOrder.compare_eq_compareOfLessAndEq]
    simp only [compareOfLessAndEq]
    simp only [key_injective.eq_iff]
    rfl

/-- A closer result comes first. -/
lemma lt_of_distance_lt {r s : Result} (h : r.distance < s.distance) : r < s :=
  Prod.Lex.toLex_lt_toLex.2 (Or.inl h)

lemma distance_le {r s : Result} (h : r ≤ s) : r.distance ≤ s.distance :=
  not_lt.1 fun hlt => not_lt.2 h (lt_of_distance_lt hlt)

/-! ### Ascending lists -/

lemma mem_insert {r s : Result} {l : List Result} : s ∈ insert r l ↔ s = r ∨ s ∈ l := by
  induction l with
  | nil => simp [insert]
  | cons t rest ih =>
    simp only [insert]
    split
    · simp
    · rename_i h
      rw [compare_eq_iff_eq.1 h]
      simp
    · rw [List.mem_cons, ih, List.mem_cons, or_left_comm]

lemma sortedLT_insert {r : Result} {l : List Result} (h : l.SortedLT) :
    (insert r l).SortedLT := by
  induction l with
  | nil => simp [insert, List.sortedLT_iff_pairwise]
  | cons s rest ih =>
    obtain ⟨hs, hrest⟩ := List.pairwise_cons.1 h.pairwise
    simp only [insert]
    split
    · rename_i hlt
      rw [compare_lt_iff_lt] at hlt
      rw [List.sortedLT_iff_pairwise, List.pairwise_cons]
      refine ⟨?_, h.pairwise⟩
      intro t ht
      rcases List.mem_cons.1 ht with rfl | ht
      · exact hlt
      · exact hlt.trans (hs t ht)
    · exact h
    · rename_i hgt
      rw [compare_gt_iff_gt] at hgt
      rw [List.sortedLT_iff_pairwise, List.pairwise_cons]
      refine ⟨?_, (ih hrest.sortedLT).pairwise⟩
      intro t ht
      rcases mem_insert.1 ht with rfl | ht
      · exact hgt
      · exact hs t ht

/-- Inserting into the ascending list of a set. -/
lemma insert_sort (r : Result) (S : Finset Result) :
    insert r S.sort = (Insert.insert r S : Finset Result).sort := by
  refine (sortedLT_insert S.sortedLT_sort).eq_of_mem_iff (Finset.sortedLT_sort _) ?_
  intro s
  rw [mem_insert, Finset.mem_sort, Finset.mem_sort, Finset.mem_insert]

/-- Sorting gives the ascending list of the members. -/
lemma sort_eq (l : List Result) : sort l = l.toFinset.sort := by
  have hfold : ∀ (l : List Result) (S : Finset Result),
      l.foldl (fun sorted r => insert r sorted) S.sort = (S ∪ l.toFinset).sort := by
    intro l
    induction l with
    | nil => simp
    | cons r rest ih =>
      intro S
      rw [List.foldl_cons, insert_sort, ih, List.toFinset_cons, Finset.insert_union,
        Finset.union_insert]
  have h := hfold l ∅
  rw [Finset.sort_empty, Finset.empty_union] at h
  exact h

lemma length_insert_le (r : Result) (l : List Result) : (insert r l).length ≤ l.length + 1 := by
  induction l with
  | nil => simp [insert]
  | cons s rest ih =>
    simp only [insert]
    split
    · simp
    · simp
    · simp only [List.length_cons]
      omega

lemma length_le_insert (r : Result) (l : List Result) : l.length ≤ (insert r l).length := by
  induction l with
  | nil => simp
  | cons s rest ih =>
    simp only [insert]
    split
    · simp
    · simp
    · simp only [List.length_cons]
      omega

/-- The first elements after an insertion depend on the first elements before it only. -/
lemma take_insert_take (r : Result) (l : List Result) (k : ℕ) :
    (insert r (l.take k)).take k = (insert r l).take k := by
  induction l generalizing k with
  | nil => rw [List.take_nil]
  | cons s rest ih =>
    cases k with
    | zero => simp
    | succ k =>
      rw [List.take_succ_cons]
      simp only [insert]
      split
      · rw [List.take_succ_cons, List.take_succ_cons]
        congr 1
        show ((s :: rest).take (k + 1)).take k = (s :: rest).take k
        rw [List.take_take, Nat.min_eq_left (Nat.le_succ k)]
      · rw [List.take_succ_cons, List.take_succ_cons, List.take_take, Nat.min_self]
      · rw [List.take_succ_cons, List.take_succ_cons, ih]

/-! ### The first elements -/

lemma mem_take_of_sorted {l : List Result} (h : l.SortedLT) (k : ℕ) (r : Result) :
    r ∈ l.take k ↔ r ∈ l ∧ (l.filter (· < r)).length < k := by
  induction l generalizing k with
  | nil => simp
  | cons s rest ih =>
    obtain ⟨hs, hrest⟩ := List.pairwise_cons.1 h.pairwise
    cases k with
    | zero => simp
    | succ k =>
      rw [List.take_succ_cons, List.mem_cons, List.mem_cons, ih hrest.sortedLT]
      constructor
      · rintro (rfl | ⟨hr, hlen⟩)
        · have hnone : (r :: rest).filter (· < r) = [] := by
            rw [List.filter_eq_nil_iff]
            intro t ht
            rcases List.mem_cons.1 ht with rfl | ht
            · simp
            · simpa using (hs t ht).le
          rw [hnone]
          exact ⟨Or.inl rfl, Nat.succ_pos k⟩
        · refine ⟨Or.inr hr, ?_⟩
          rw [List.filter_cons_of_pos (by simpa using hs r hr), List.length_cons]
          omega
      · rintro ⟨rfl | hr, hlen⟩
        · exact Or.inl rfl
        · rw [List.filter_cons_of_pos (by simpa using hs r hr), List.length_cons] at hlen
          exact Or.inr ⟨hr, by omega⟩

lemma length_filter_sort (S : Finset Result) (r : Result) :
    (S.sort.filter (· < r)).length = (S.filter (· < r)).card := by
  rw [← List.toFinset_card_of_nodup ((Finset.sort_nodup S _).filter _)]
  congr 1
  ext s
  simp

/-- The first `k` elements of a set are those with fewer than `k` elements below them. -/
lemma mem_take_sort (S : Finset Result) (k : ℕ) (r : Result) :
    r ∈ S.sort.take k ↔ r ∈ S ∧ (S.filter (· < r)).card < k := by
  rw [mem_take_of_sorted S.sortedLT_sort, Finset.mem_sort, length_filter_sort]

end Result

end SphereSearch.Search
