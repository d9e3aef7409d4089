import SphereSearch.Grid.CellId

/-!
# Markers and heights

A word that is not zero is an odd number times a power of two, and that power is its marker.
A quarter of a cell has a quarter of its marker, so it can be split once less
(`height_child`).
-/

namespace SphereSearch

/-- A positive number is a power of two times an odd number. -/
theorem exists_eq_two_pow_mul_odd {n : Nat} (h : 0 < n) :
    ∃ t m, n = 2 ^ t * (2 * m + 1) := by
  induction n using Nat.strongRecOn with
  | ind n ih =>
    rcases Nat.mod_two_eq_zero_or_one n with even | odd
    · obtain ⟨t, m, hm⟩ := ih (n / 2) (by omega) (by omega)
      exact ⟨t + 1, m, by rw [Nat.pow_succ, Nat.mul_right_comm, ← hm]; omega⟩
    · exact ⟨0, n / 2, by omega⟩

/-- A number and its complement to a higher power of two share only the lowest bit. -/
theorem and_two_pow_sub {n t m : Nat} (h : 2 ^ t * (2 * m + 1) < 2 ^ n) :
    2 ^ t * (2 * m + 1) &&& (2 ^ n - 2 ^ t * (2 * m + 1)) = 2 ^ t := by
  have ht : t < n := by
    apply (Nat.pow_lt_pow_iff_right (a := 2) (by omega)).1
    exact Nat.lt_of_le_of_lt (Nat.le_mul_of_pos_right _ (by omega)) h
  obtain ⟨k, rfl⟩ : ∃ k, n = t + (k + 1) := ⟨n - t - 1, by omega⟩
  have hm : m < 2 ^ k := by
    rw [Nat.pow_add, Nat.mul_lt_mul_left (Nat.two_pow_pos t), Nat.pow_succ] at h
    omega
  have hsub : 2 ^ (t + (k + 1)) - 2 ^ t * (2 * m + 1) = 2 ^ t * (2 * (2 ^ k - (m + 1)) + 1) := by
    rw [Nat.pow_add, ← Nat.mul_sub, Nat.pow_succ]
    congr 1
    omega
  rw [hsub]
  apply Nat.eq_of_testBit_eq
  intro i
  simp only [Nat.testBit_and, Nat.testBit_two_pow_mul, Nat.testBit_two_pow]
  by_cases hi : t ≤ i
  · obtain ⟨j, rfl⟩ : ∃ j, i = t + j := ⟨i - t, by omega⟩
    cases j with
    | zero => simp
    | succ j =>
      have hne : t ≠ t + (j + 1) := by omega
      have hb : ∀ a, (2 * a + 1).testBit (j + 1) = a.testBit j := by
        intro a
        rw [Nat.testBit_succ]
        congr 1
        omega
      simp only [Nat.add_sub_cancel_left, hb, hne, decide_false, Nat.testBit_two_pow_sub_succ hm]
      simp
      intro h1 h2
      simp_all
  · have : t ≠ i := by omega
    simp [hi, this]

namespace CellId

/-- The marker of an odd number times a power of two is that power. -/
theorem toNat_marker {id : CellId} {t m : Nat} (h : id.raw.toNat = 2 ^ t * (2 * m + 1)) :
    id.marker.toNat = 2 ^ t := by
  have hlt : id.raw.toNat < 2 ^ 64 := id.raw.toNat_lt
  have hpos : 0 < id.raw.toNat := by
    rw [h]; exact Nat.mul_pos (Nat.two_pow_pos t) (by omega)
  rw [marker, UInt64.toNat_and, UInt64.toNat_sub]
  have : (2 ^ 64 - id.raw.toNat + (0 : UInt64).toNat) % 2 ^ 64 = 2 ^ 64 - id.raw.toNat := by
    rw [UInt64.toNat_zero, Nat.add_zero, Nat.mod_eq_of_lt (by omega)]
  rw [this, h, and_two_pow_sub (h ▸ hlt)]

/-- The height is half the number of zeros that end the word. -/
theorem height_eq {id : CellId} {t m : Nat} (h : id.raw.toNat = 2 ^ t * (2 * m + 1)) :
    id.height = t / 2 := by
  rw [height, toNat_marker h, Nat.log2_two_pow]

/-- The word of a quarter: its marker is a quarter of the cell's, and its odd part gains the
digit `k`. -/
theorem toNat_child {id : CellId} {t m k : Nat} (h : id.raw.toNat = 2 ^ (t + 2) * (2 * m + 1))
    (hk : k < 4) : (id.child k).raw.toNat = 2 ^ t * (2 * (4 * m + k) + 1) := by
  have hlt : 2 ^ (t + 2) * (2 * m + 1) < 2 ^ 64 := h ▸ id.raw.toNat_lt
  have ht : t + 2 < 64 := by
    apply (Nat.pow_lt_pow_iff_right (a := 2) (by omega)).1
    exact Nat.lt_of_le_of_lt (Nat.le_mul_of_pos_right _ (by omega)) hlt
  have hpow : 2 ^ (t + 2) = 4 * 2 ^ t := by rw [Nat.pow_add]; omega
  have hsum : 2 ^ t * (8 * m + 8) ≤ 2 ^ 64 := by
    obtain ⟨j, hj⟩ : ∃ j, 64 = (t + 2) + (j + 1) := ⟨64 - (t + 2) - 1, by omega⟩
    rw [hj, Nat.pow_add 2 (t + 2) (j + 1)] at hlt ⊢
    have hodd := Nat.lt_of_mul_lt_mul_left hlt
    rw [Nat.pow_succ] at hodd ⊢
    calc 2 ^ t * (8 * m + 8) = 2 ^ (t + 2) * (2 * m + 2) := by
          rw [hpow, Nat.mul_comm 4, Nat.mul_assoc]; congr 1; omega
      _ ≤ _ := Nat.mul_le_mul_left _ (by omega)
  have hk64 : (2 * k + 1).toUInt64.toNat = 2 * k + 1 := by
    rw [Nat.toUInt64, UInt64.toNat_ofNat']; omega
  have hquarter : (id.marker >>> 2).toNat = 2 ^ t := by
    rw [UInt64.toNat_shiftRight, toNat_marker h, Nat.shiftRight_eq_div_pow, hpow]
    show 4 * 2 ^ t / 2 ^ 2 = 2 ^ t
    omega
  have hstep : (2 * k + 1) * 2 ^ t ≤ 7 * 2 ^ t := Nat.mul_le_mul_right _ (by omega)
  have hm : 2 ^ t * (8 * m + 8) = 8 * (2 ^ t * m) + 8 * 2 ^ t := by
    rw [Nat.mul_add, Nat.mul_left_comm, Nat.mul_comm (2 ^ t) 8]
  have hraw : id.raw.toNat = 8 * (2 ^ t * m) + 4 * 2 ^ t := by
    rw [h, hpow, Nat.mul_add, Nat.mul_one, Nat.mul_assoc, Nat.mul_left_comm (2 ^ t)]; omega
  rw [child]
  show (id.raw - id.marker + (2 * k + 1).toUInt64 * (id.marker >>> 2)).toNat = _
  have hbase : (id.raw - id.marker).toNat = 8 * (2 ^ t * m) := by
    have hle : id.marker ≤ id.raw := by
      rw [UInt64.le_iff_toNat_le, toNat_marker h, hraw, hpow]
      omega
    rw [UInt64.toNat_sub_of_le _ _ hle, toNat_marker h, hraw, hpow]
    omega
  rw [UInt64.toNat_add, UInt64.toNat_mul, hbase, hk64, hquarter]
  rw [Nat.mod_eq_of_lt (a := (2 * k + 1) * 2 ^ t) (by omega), Nat.mod_eq_of_lt (by omega),
    Nat.mul_left_comm, Nat.mul_comm (2 * k + 1), ← Nat.mul_add]
  congr 1
  omega

/-- A quarter can be split once less. -/
theorem height_child {id : CellId} {k : Nat} (hk : k < 4) (h : 0 < id.height) :
    (id.child k).height + 1 = id.height := by
  have hpos : 0 < id.raw.toNat := by
    apply Nat.pos_of_ne_zero
    intro h0
    have : id.marker.toNat = 0 := by rw [marker, UInt64.toNat_and, h0, Nat.zero_and]
    rw [height, this] at h
    exact absurd h (by decide)
  obtain ⟨t, m, hm⟩ := exists_eq_two_pow_mul_odd hpos
  rw [height_eq hm] at h ⊢
  obtain ⟨s, rfl⟩ : ∃ s, t = s + 2 := ⟨t - 2, by omega⟩
  rw [height_eq (toNat_child hm hk)]
  omega

end CellId

end SphereSearch
