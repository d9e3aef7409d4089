/-!
# Bisection

If the elements of an array that have a property stand in front of those that do not, the place
where the property ends is found by halving the range that it lies in (`bisect`).
-/

namespace SphereSearch

variable {α : Type} {p : α → Bool} {a : Array α} {lo hi : Nat}

/-- The first position from `lo` to `hi` at which an array has no element with a property, where
those that have it stand in front. -/
def bisect (p : α → Bool) (a : Array α) (lo hi : Nat) : Nat :=
  if h : lo < hi ∧ hi ≤ a.size then
    let middle := lo + (hi - lo) / 2
    have _ : middle < a.size := by omega
    if p a[middle] then bisect p a (middle + 1) hi else bisect p a lo middle
  else lo
termination_by hi - lo

theorem le_bisect : lo ≤ bisect p a lo hi := by
  fun_induction bisect p a lo hi with
  | case1 lo hi hrange middle hmiddle hp ih => omega
  | case2 lo hi hrange middle hmiddle hp ih => exact ih
  | case3 lo hi hrange => exact Nat.le_refl lo

theorem bisect_le (h : lo ≤ hi) : bisect p a lo hi ≤ hi := by
  fun_induction bisect p a lo hi with
  | case1 lo hi hrange middle hmiddle hp ih => exact ih (by omega)
  | case2 lo hi hrange middle hmiddle hp ih => exact Nat.le_trans (ih (by omega)) (by omega)
  | case3 lo hi hrange => exact h

/-- If the first element of a range has the property, the place is behind it. -/
theorem lt_bisect (h : lo < hi) (hsize : hi ≤ a.size) (hp : p a[lo] = true) :
    lo < bisect p a lo hi := by
  fun_induction bisect p a lo hi with
  | case1 lo hi hrange middle hmiddle hmp ih =>
    have hle : middle + 1 ≤ bisect p a (middle + 1) hi := le_bisect
    omega
  | case2 lo hi hrange middle hmiddle hmp ih =>
    have hne : lo ≠ middle := by
      intro heq
      exact hmp (by simpa only [heq] using hp)
    exact ih (by omega) (by omega) hp
  | case3 lo hi hrange => exact absurd ⟨h, hsize⟩ hrange

/-- **Bisection** finds the place where a property ends: in the range, the elements in front of it
have the property and no others. -/
theorem lt_bisect_iff (hsize : hi ≤ a.size)
    (hfront : ∀ i j x y, lo ≤ i → i ≤ j → j < hi → a[i]? = some x → a[j]? = some y →
      p y = true → p x = true) {k : Nat} {z : α} (hz : a[k]? = some z) (hlo : lo ≤ k)
    (hhi : k < hi) : k < bisect p a lo hi ↔ p z = true := by
  fun_induction bisect p a lo hi with
  | case1 lo hi hrange middle hmiddle hp ih =>
    -- The middle one has the property, so all in front of it do.
    have hget : a[middle]? = some a[middle] := Array.getElem?_eq_getElem hmiddle
    rcases Nat.lt_or_ge middle k with hk | hk
    · exact ih hsize (fun i j x y hi => hfront i j x y (by omega)) hk hhi
    · have hle : middle + 1 ≤ bisect p a (middle + 1) hi := le_bisect
      exact iff_of_true (by omega) (hfront k middle _ _ hlo hk (by omega) hz hget hp)
  | case2 lo hi hrange middle hmiddle hp ih =>
    -- It does not, so none behind it does.
    have hget : a[middle]? = some a[middle] := Array.getElem?_eq_getElem hmiddle
    rcases Nat.lt_or_ge k middle with hk | hk
    · exact ih (by omega) (fun i j x y hi hij hj => hfront i j x y hi hij (by omega)) hlo hk
    · have hle : bisect p a lo middle ≤ middle := bisect_le (by omega)
      refine iff_of_false (by omega) fun hpz => hp ?_
      exact hfront middle k _ _ (by omega) hk hhi hget hz hpz
  | case3 lo hi hrange => exact absurd ⟨by omega, hsize⟩ hrange

end SphereSearch
