import SphereSearch.Proofs.Sphere.ChordOrder

/-!
# Differences of chords

Subtracting no distance changes nothing (`Chord.sub_zero`), and subtracting the greatest one
leaves nothing of any distance (`Chord.sub_straight`).  So an allowance for error of `straight`
never raises a limit (`Chord.sub_straight_le`) and keeps the order of limits
(`Chord.sub_straight_le_sub_straight`): it is a proper `Chord.Allowance`.
-/

namespace SphereSearch.Chord

/-- An allowance for error: subtracting it raises no distance and keeps the order of
distances. -/
structure Allowance (err : Chord) : Prop where
  pos : zero < err
  sub_le : ∀ c : Chord, c - err ≤ c
  sub_le_sub : ∀ c d : Chord, c ≤ d → c - err ≤ d - err

lemma sub_zero (c : Chord) : c - zero = c := by
  show sub c zero = c
  simp only [sub]
  rw [if_pos]
  rw [Bool.or_eq_true]
  exact Or.inl (by decide)

lemma ofLen2_lt_infinity (x : Float) : ofLen2 x < infinity := by
  refine lt_of_le_of_ne (le_infinity _) ?_
  simp only [ofLen2]
  split
  · decide
  · split
    · decide
    · intro heq
      have hlen : Binary64.minNum x 4.0 = Binary64.infinity := congrArg len2 heq
      simp only [Binary64.minNum] at hlen
      split at hlen
      · rename_i hlt
        rw [hlen] at hlt
        exact absurd hlt (by decide)
      · exact absurd hlen (by decide)

lemma between_le_straight (p q : Point) : between p q ≤ straight :=
  lt_infinity_iff.1 (ofLen2_lt_infinity _)

/-- A difference is no farther than what it is taken from, if that is not infinitely far. -/
lemma sub_lt_infinity {c : Chord} (h : c < infinity) (d : Chord) : c - d < infinity := by
  show sub c d < infinity
  simp only [sub]
  split
  · exact h
  · split
    · decide
    · exact ofLen2_lt_infinity _

/-- A distance is not special. -/
lemma isSpecial_eq_false {c : Chord} (hbits : c.len2.toBits.toNat ≤ 0x4010000000000000) :
    c.isSpecial = false := by
  have hword : c.len2.toBits.toNat ≤ Binary64.infinityWord := by
    simp only [Binary64.infinityWord]
    omega
  simp only [isSpecial, isNegative, isInfinite]
  rw [Bool.or_eq_false_iff, decide_eq_false_iff_not, Binary64.lt_iff_toBits hword (by decide),
    ← Bool.not_eq_true, Binary64.beq_iff_compare, Binary64.compare_unpack hword (by decide),
    Option.some_inj, Nat.compare_eq_eq]
  refine ⟨?_, ?_⟩
  · rw [show (0.0 : Float).toBits.toNat = 0 by decide]
    exact Nat.not_lt_zero _
  · rw [show Binary64.infinity.toBits.toNat = 0x7FF0000000000000 by decide]
    omega

/-- Nothing is left of a distance from which the greatest one is subtracted. -/
lemma sub_straight {c : Chord} (hzero : zero ≤ c) (hstraight : c ≤ straight) :
    c - straight = zero := by
  have hbits : c.len2.toBits.toNat ≤ 0x4010000000000000 := by
    rcases special_or_distance c with rfl | rfl | ⟨hbits, -⟩
    · exact absurd hzero (by decide)
    · exact absurd hstraight (by decide)
    · exact hbits
  show sub c straight = zero
  simp only [sub]
  rw [isSpecial_eq_false hbits, Bool.or_false, if_neg (by decide),
    if_pos ((len2_le_iff (by decide)).2 hstraight)]

/-- The special values and the distances, as the difference with the greatest one sees them. -/
lemma sub_straight_cases (c : Chord) :
    c = negative ∧ c - straight = negative ∨ c = infinity ∧ c - straight = infinity ∨
      zero ≤ c ∧ c ≤ straight ∧ c - straight = zero := by
  by_cases hneg : c = negative
  · subst hneg
    exact Or.inl ⟨rfl, by decide⟩
  · have hzero := zero_le_of_ne_negative hneg
    by_cases hinf : c = infinity
    · subst hinf
      exact Or.inr (Or.inl ⟨rfl, by decide⟩)
    · have hstraight := lt_infinity_iff.1 (lt_of_le_of_ne (le_infinity c) hinf)
      exact Or.inr (Or.inr ⟨hzero, hstraight, sub_straight hzero hstraight⟩)

/-- Nothing is left of a finite distance when the greatest one is subtracted. -/
lemma sub_straight_le_zero {c : Chord} (h : c < infinity) : c - straight ≤ zero := by
  rcases sub_straight_cases c with ⟨-, hc⟩ | ⟨rfl, -⟩ | ⟨-, -, hc⟩
  · rw [hc]
    decide
  · exact absurd h (lt_irrefl _)
  · rw [hc]

lemma sub_straight_le (c : Chord) : c - straight ≤ c := by
  rcases sub_straight_cases c with ⟨rfl, h⟩ | ⟨rfl, h⟩ | ⟨hzero, -, h⟩
  · rw [h]
  · rw [h]
  · rw [h]
    exact hzero

lemma sub_straight_le_sub_straight {c d : Chord} (hcd : c ≤ d) : c - straight ≤ d - straight := by
  rcases sub_straight_cases c with ⟨rfl, h⟩ | ⟨rfl, h⟩ | ⟨hzero, -, h⟩
  · rw [h]
    exact negative_le _
  · rw [h, le_antisymm (le_infinity d) hcd, h]
  · rw [h]
    rcases sub_straight_cases d with ⟨rfl, -⟩ | ⟨rfl, h'⟩ | ⟨-, -, h'⟩
    · exact absurd (hzero.trans hcd) (by decide)
    · rw [h']
      exact le_infinity _
    · rw [h']

lemma allowance_straight : straight.Allowance where
  pos := by decide
  sub_le := sub_straight_le
  sub_le_sub _ _ := sub_straight_le_sub_straight

end SphereSearch.Chord
