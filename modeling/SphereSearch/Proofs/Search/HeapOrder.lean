import Mathlib.Order.Lattice
import SphereSearch.Proofs.Sphere.ChordOrder
import SphereSearch.Search.BestFirst

/-!
# The order of a heap

If no root has a greater key than what is below it (`Heap.Ordered`), then what is popped has the
least key (`Heap.Ordered.le_of_pop?`), and adding and popping keep it so.  In the queue of a
search the keys are distances (`Entry.respects_before`).
-/

namespace SphereSearch

namespace Heap

variable {α β : Type} {le : α → α → Bool} {key : α → β}

lemma mem_toList_merge {a b : Heap α} {x : α} :
    x ∈ (merge le a b).toList ↔ x ∈ a.toList ∨ x ∈ b.toList := by
  rw [(toList_merge le a b).mem_iff, List.mem_append]

lemma mem_toList_push {h : Heap α} {x y : α} :
    y ∈ (h.push le x).toList ↔ y = x ∨ y ∈ h.toList := by
  rw [(toList_push le h x).mem_iff, List.mem_cons]

variable [Preorder β]

/-- Elements are compared by their keys first. -/
structure Respects (le : α → α → Bool) (key : α → β) : Prop where
  le_of_true : ∀ x y, le x y = true → key x ≤ key y
  le_of_false : ∀ x y, le x y = false → key y ≤ key x

/-- No element is above one with a smaller key. -/
def Ordered (key : α → β) : Heap α → Prop
  | empty => True
  | node x l r => (∀ y ∈ l.toList ++ r.toList, key x ≤ key y) ∧ l.Ordered key ∧ r.Ordered key

namespace Ordered

/-- The root has the least key. -/
lemma root_le {x y : α} {l r : Heap α} (h : (node x l r).Ordered key)
    (hy : y ∈ (node x l r).toList) : key x ≤ key y := by
  rcases List.mem_cons.1 hy with rfl | hy
  · exact le_rfl
  · exact h.1 y hy

/-- Merging keeps the order. -/
lemma merge (hle : Respects le key) {a b : Heap α} (ha : a.Ordered key)
    (hb : b.Ordered key) : (Heap.merge le a b).Ordered key := by
  fun_induction Heap.merge le a b with
  | case1 h => exact hb
  | case2 x l r => exact ha
  | case3 x l r y l' r' hxy ih =>
    obtain ⟨hroot, hl, hr⟩ := ha
    refine ⟨?_, ih hr hb, hl⟩
    intro z hz
    rcases List.mem_append.1 hz with hz | hz
    · rcases mem_toList_merge.1 hz with hz | hz
      · exact hroot z (List.mem_append_right _ hz)
      · exact (hle.le_of_true x y hxy).trans (root_le hb hz)
    · exact hroot z (List.mem_append_left _ hz)
  | case4 x l r y l' r' hxy ih =>
    obtain ⟨hroot, hl, hr⟩ := hb
    refine ⟨?_, ih hr ha, hl⟩
    intro z hz
    rcases List.mem_append.1 hz with hz | hz
    · rcases mem_toList_merge.1 hz with hz | hz
      · exact hroot z (List.mem_append_right _ hz)
      · exact (hle.le_of_false x y (eq_false_of_ne_true hxy)).trans (root_le ha hz)
    · exact hroot z (List.mem_append_left _ hz)

/-- Adding an element keeps the order. -/
lemma push (hle : Respects le key) {h : Heap α} (hh : h.Ordered key) (x : α) :
    (h.push le x).Ordered key := by
  refine merge hle ⟨?_, trivial, trivial⟩ hh
  exact fun y hy => absurd hy List.not_mem_nil

/-- Popping keeps the order. -/
lemma of_pop? (hle : Respects le key) {h rest : Heap α} {x : α}
    (hh : h.Ordered key) (hp : h.pop? le = some (x, rest)) : rest.Ordered key := by
  cases h with
  | empty => exact absurd hp (by simp [pop?])
  | node y l r =>
    simp only [pop?, Option.some.injEq, Prod.mk.injEq] at hp
    obtain ⟨-, rfl⟩ := hp
    exact merge hle hh.2.1 hh.2.2

/-- What is popped has the least key. -/
lemma le_of_pop? {h rest : Heap α} {x y : α} (hh : h.Ordered key)
    (hp : h.pop? le = some (x, rest)) (hy : y ∈ h.toList) : key x ≤ key y := by
  cases h with
  | empty => exact absurd hp (by simp [pop?])
  | node z l r =>
    simp only [pop?, Option.some.injEq, Prod.mk.injEq] at hp
    obtain ⟨rfl, -⟩ := hp
    exact root_le hh hy

end Ordered

end Heap

/-- Regions wait in the order of their distances. -/
lemma Search.Entry.respects_before : Heap.Respects Entry.before Entry.distance where
  le_of_true a b h := by
    by_contra hgt
    have hcompare : compare a.distance b.distance = .gt := compare_gt_iff_gt.2 (not_le.1 hgt)
    simp only [before] at h
    rw [hcompare] at h
    exact absurd h (by simp)
  le_of_false a b h := by
    by_contra hgt
    have hcompare : compare a.distance b.distance = .lt := compare_lt_iff_lt.2 (not_le.1 hgt)
    simp only [before] at h
    rw [hcompare] at h
    exact absurd h (by simp)

end SphereSearch
