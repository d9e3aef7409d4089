/-!
# A priority queue

A skew heap: a binary tree whose roots are least among the elements below them.  Merging walks
down the right sides and swaps the children on the way, which keeps the tree balanced enough.
The view of a heap is the list of its elements, in no particular order; `push` and `pop?` are
described by it up to permutation (`toList_push`, `toList_of_pop?`).
-/

namespace SphereSearch

/-- A binary tree with an element at every node. -/
inductive Heap (α : Type) where
  /-- The heap without elements. -/
  | empty
  /-- An element above two heaps. -/
  | node (root : α) (left right : Heap α)

namespace Heap

variable {α : Type}

/-- The number of elements. -/
def size : Heap α → Nat
  | empty => 0
  | node _ l r => l.size + r.size + 1

/-- The elements. -/
def toList : Heap α → List α
  | empty => []
  | node x l r => x :: (l.toList ++ r.toList)

/-- The elements of two heaps; `le` tells which roots may stand above which. -/
def merge (le : α → α → Bool) : Heap α → Heap α → Heap α
  | empty, h => h
  | node x l r, empty => node x l r
  | node x l r, node y l' r' =>
    if le x y then node x (merge le r (node y l' r')) l
    else node y (merge le r' (node x l r)) l'
termination_by a b => a.size + b.size
decreasing_by all_goals simp only [size]; omega

/-- Adds an element. -/
def push (le : α → α → Bool) (h : Heap α) (x : α) : Heap α := merge le (node x empty empty) h

/-- The least element and the heap of the others. -/
def pop? (le : α → α → Bool) : Heap α → Option (α × Heap α)
  | empty => none
  | node x l r => some (x, merge le l r)

/-- Merging keeps all elements. -/
theorem toList_merge (le : α → α → Bool) (a b : Heap α) :
    (merge le a b).toList.Perm (a.toList ++ b.toList) := by
  fun_induction merge le a b with
  | case1 h => simp [toList]
  | case2 x l r => simp [toList]
  | case3 x l r y l' r' _ ih =>
    simp only [toList, List.cons_append, List.perm_cons]
    refine (ih.append_right _).trans ?_
    refine List.perm_append_comm.trans ?_
    simp [toList]
  | case4 x l r y l' r' _ ih =>
    simp only [toList, List.cons_append]
    refine ((ih.append_right _).cons y).trans ?_
    have : (y :: (r'.toList ++ (node x l r).toList ++ l'.toList)).Perm
        (y :: (l'.toList ++ r'.toList) ++ (node x l r).toList) := by
      refine .cons y ?_
      refine List.perm_append_comm.trans ?_
      simp
    exact this.trans (List.perm_append_comm.trans (by simp [toList]))

/-- Adding an element adds it to the list. -/
theorem toList_push (le : α → α → Bool) (h : Heap α) (x : α) :
    (h.push le x).toList.Perm (x :: h.toList) := by
  simpa [push, toList] using toList_merge le (node x empty empty) h

/-- A heap with an element can be popped. -/
theorem exists_pop? (le : α → α → Bool) {h : Heap α} {x : α} (hx : x ∈ h.toList) :
    ∃ y rest, h.pop? le = some (y, rest) := by
  cases h with
  | empty => exact absurd hx List.not_mem_nil
  | node y l r => exact ⟨y, merge le l r, rfl⟩

/-- What is popped and what is left are the elements. -/
theorem toList_of_pop? {le : α → α → Bool} {h rest : Heap α} {x : α}
    (hp : h.pop? le = some (x, rest)) : h.toList.Perm (x :: rest.toList) := by
  cases h with
  | empty => simp [pop?] at hp
  | node y l r =>
    simp only [pop?, Option.some.injEq, Prod.mk.injEq] at hp
    obtain ⟨rfl, rfl⟩ := hp
    exact (toList_merge le l r).symm.cons _

end Heap

end SphereSearch
