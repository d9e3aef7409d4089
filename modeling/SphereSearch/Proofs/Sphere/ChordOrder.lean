import Mathlib.Order.Basic
import Mathlib.Order.Compare
import SphereSearch.Sphere.Chord

/-!
# The order of chords

Chords are compared by a key on the words of their doubles.  The key is injective, so the order
is linear.  Its least element is `negative`, its greatest one `infinity`, and what lies between
are the distances, whose words follow each other from `zero` to `straight`.  That is why
`successor` misses nothing: a chord is below `d.successor` exactly if it is at most `d`
(`lt_successor_iff`).
-/

namespace SphereSearch

namespace Chord

/-! ### The key as a number -/

/-- The place of a chord in the order, as a natural number. -/
def place (c : Chord) : ℕ := c.orderKey.toNat

lemma lt_iff_place {c d : Chord} : c < d ↔ c.place < d.place := UInt64.lt_iff_toNat_lt

lemma le_iff_place {c d : Chord} : c ≤ d ↔ c.place ≤ d.place := UInt64.le_iff_toNat_le

/-- The place of a double: without a sign it rises with the word, with a sign it falls. -/
lemma place_eq (c : Chord) :
    c.place = if c.len2.toBits.toNat < 2 ^ 63 then c.len2.toBits.toNat + 2 ^ 63
      else 2 ^ 64 - 1 - c.len2.toBits.toNat := by
  have hlt := c.len2.toBits.toNat_lt
  have hiff : c.len2.toBits < 0x8000000000000000 ↔ c.len2.toBits.toNat < 2 ^ 63 :=
    UInt64.lt_iff_toNat_lt
  simp only [place, orderKey, Binary64.orderKey]
  by_cases h : c.len2.toBits.toNat < 2 ^ 63
  · rw [if_pos h, if_pos (hiff.2 h), UInt64.toNat_add, Nat.mod_eq_of_lt]
    · rfl
    · show _ + 2 ^ 63 < 2 ^ 64
      omega
  · rw [if_neg h, if_neg fun hlt => h (hiff.1 hlt)]
    exact UInt64.toNat_not _

lemma place_injective {c d : Chord} (h : c.place = d.place) : c = d := by
  have hc := c.len2.toBits.toNat_lt
  have hd := d.len2.toBits.toNat_lt
  rw [place_eq, place_eq] at h
  have hbits : c.len2.toBits.toNat = d.len2.toBits.toNat := by
    split at h <;> split at h <;> omega
  have hlen : c.len2 = d.len2 := Binary64.eq_of_toBits (UInt64.toNat_inj.1 hbits)
  rcases c with ⟨x, hx⟩
  rcases d with ⟨y, hy⟩
  cases hlen
  rfl

lemma compare_eq (c d : Chord) : compare c d = compareOfLessAndEq c d := by
  simp only [compareOfLessAndEq]
  show compareOfLessAndEq c.orderKey d.orderKey = _
  simp only [compareOfLessAndEq]
  have heq : c.orderKey = d.orderKey ↔ c = d :=
    ⟨fun h => place_injective (congrArg UInt64.toNat h), fun h => h ▸ rfl⟩
  simp only [heq]
  rfl

instance : LinearOrder Chord where
  le_refl _ := le_iff_place.2 (Nat.le_refl _)
  le_trans _ _ _ h h' := le_iff_place.2 (Nat.le_trans (le_iff_place.1 h) (le_iff_place.1 h'))
  le_antisymm _ _ h h' :=
    place_injective (Nat.le_antisymm (le_iff_place.1 h) (le_iff_place.1 h'))
  lt_iff_le_not_ge c d := by
    rw [lt_iff_place, le_iff_place, le_iff_place]
    omega
  le_total c d := by
    rw [le_iff_place, le_iff_place]
    exact Nat.le_total _ _
  toDecidableLE := inferInstance
  toDecidableLT := inferInstance
  toDecidableEq := inferInstance
  min_def _ _ := rfl
  max_def _ _ := rfl
  compare_eq_compareOfLessAndEq := compare_eq

/-! ### The ends and what lies between -/

lemma place_negative : negative.place = 0x400FFFFFFFFFFFFF := by decide

lemma place_zero : zero.place = 2 ^ 63 := by decide

lemma place_straight : straight.place = 2 ^ 63 + 0x4010000000000000 := by decide

lemma place_infinity : infinity.place = 2 ^ 63 + 0x7FF0000000000000 := by decide

/-- A chord is a special value or a distance. -/
lemma special_or_distance (c : Chord) :
    c = negative ∨ c = infinity ∨
      c.len2.toBits.toNat ≤ 0x4010000000000000 ∧ c.place = 2 ^ 63 + c.len2.toBits.toNat := by
  rcases c with ⟨x, h | h | h⟩
  · right
    right
    rw [UInt64.le_iff_toNat_le, toNat_toBits_four] at h
    rw [place_eq]
    refine ⟨h, ?_⟩
    dsimp only
    rw [if_pos (by omega), Nat.add_comm]
  · left
    cases h
    rfl
  · right
    left
    cases h
    rfl

/-- The places that chords take: two for the special values, and an interval for distances. -/
lemma place_cases (c : Chord) :
    c.place = 0x400FFFFFFFFFFFFF ∨ c.place = 2 ^ 63 + 0x7FF0000000000000 ∨
      2 ^ 63 ≤ c.place ∧ c.place ≤ 2 ^ 63 + 0x4010000000000000 := by
  rcases special_or_distance c with rfl | rfl | ⟨hbits, hplace⟩
  · exact Or.inl place_negative
  · exact Or.inr (Or.inl place_infinity)
  · right
    right
    omega

/-- Between zero and the greatest distance there are distances only. -/
lemma distance_of_between {c : Chord} (hzero : zero ≤ c) (hle : c ≤ straight) :
    c.len2.toBits.toNat ≤ 0x4010000000000000 ∧ c.place = 2 ^ 63 + c.len2.toBits.toNat := by
  rw [le_iff_place, place_zero] at hzero
  rw [le_iff_place, place_straight] at hle
  rcases special_or_distance c with rfl | rfl | h
  · rw [place_negative] at hzero
    omega
  · rw [place_infinity] at hle
    omega
  · exact h

lemma le_infinity (c : Chord) : c ≤ infinity := by
  have hc := c.place_cases
  rw [le_iff_place, place_infinity]
  omega

lemma negative_le (c : Chord) : negative ≤ c := by
  have hc := c.place_cases
  rw [le_iff_place, place_negative]
  omega

lemma lt_zero_iff {c : Chord} : c < zero ↔ c ≤ negative := by
  have hc := c.place_cases
  rw [lt_iff_place, le_iff_place, place_zero, place_negative]
  omega

lemma lt_infinity_iff {c : Chord} : c < infinity ↔ c ≤ straight := by
  have hc := c.place_cases
  rw [lt_iff_place, le_iff_place, place_infinity, place_straight]
  omega

/-! ### Comparisons with numbers -/

/-- Between chords that are not `negative`, the order is that of the numbers. -/
lemma toBits_le_infinityWord {c : Chord} (h : zero ≤ c) :
    c.len2.toBits.toNat ≤ Binary64.infinityWord := by
  rcases special_or_distance c with rfl | rfl | ⟨hb, -⟩
  · exact absurd h (by decide)
  · decide
  · simp only [Binary64.infinityWord]
    omega

lemma zero_le_of_ne_negative {c : Chord} (h : c ≠ negative) : zero ≤ c := by
  rw [← not_lt, lt_zero_iff]
  exact fun hle => h (le_antisymm hle (negative_le c))

/-- From zero on, the place of a chord is that of its word. -/
lemma place_of_zero_le {c : Chord} (h : zero ≤ c) : c.place = 2 ^ 63 + c.len2.toBits.toNat := by
  have hword := toBits_le_infinityWord h
  rw [Binary64.infinityWord] at hword
  rw [place_eq, if_pos (by omega), Nat.add_comm]

/-- From zero on, chords are compared as numbers, also with what lies below zero. -/
lemma len2_le_iff {c d : Chord} (h : zero ≤ c) : d.len2 ≤ c.len2 ↔ d ≤ c := by
  have hc := toBits_le_infinityWord h
  by_cases hd : d = negative
  · subst hd
    refine iff_of_true ?_ (negative_le c)
    exact Binary64.le_of_lt (Binary64.neg_one_lt hc)
  · have hzero := zero_le_of_ne_negative hd
    rw [Binary64.le_iff_toBits (toBits_le_infinityWord hzero) hc, le_iff_place, place_of_zero_le h,
      place_of_zero_le hzero]
    omega

/-! ### The next chord -/

lemma place_successor {d : Chord} (hzero : zero ≤ d) (hlt : d < straight) :
    d.successor.place = d.place + 1 := by
  have hd := distance_of_between hzero hlt.le
  rw [lt_iff_place, place_straight] at hlt
  have hfour : (4.0 : Float).toBits.toNat ≤ Binary64.infinityWord := by decide
  have hbits := toBits_le_infinityWord hzero
  have hge : ¬ d.len2 ≥ 4.0 := by
    rw [ge_iff_le, Binary64.le_iff_toBits hfour hbits, toNat_toBits_four]
    omega
  have hneg : ¬ d.len2 < 0.0 := by
    rw [Binary64.lt_iff_toBits hbits (by decide), show (0.0 : Float).toBits.toNat = 0 by decide]
    omega
  have hnext : (d.len2.toBits + 1).toNat = d.len2.toBits.toNat + 1 := by
    rw [UInt64.toNat_add, Nat.mod_eq_of_lt]
    · rfl
    · show _ + 1 < 2 ^ 64
      omega
  have hlen : d.successor.len2.toBits.toNat = d.len2.toBits.toNat + 1 := by
    simp only [successor]
    rw [dif_neg hge, dif_neg hneg]
    show (Binary64.nextUp d.len2).toBits.toNat = _
    simp only [Binary64.nextUp]
    rw [Binary64.toNat_toBits_ofBits, hnext]
    rw [hnext, Binary64.infinityWord]
    omega
  rw [place_eq, hlen, if_pos (by omega)]
  omega

/-- **The next chord misses nothing.**  What is below the successor of a chord is at most that
chord. -/
theorem lt_successor_iff {c d : Chord} (h : d ≠ infinity) : c < d.successor ↔ c ≤ d := by
  by_cases hneg : d = negative
  · subst hneg
    rw [show negative.successor = zero by decide]
    exact lt_zero_iff
  · rcases lt_or_eq_of_le (lt_infinity_iff.1 (lt_of_le_of_ne (le_infinity d) h)) with hlt | rfl
    · rw [lt_iff_place, place_successor (zero_le_of_ne_negative hneg) hlt, le_iff_place]
      omega
    · rw [show straight.successor = infinity by decide]
      exact lt_infinity_iff

/-- Greater chords have greater successors. -/
lemma successor_le_successor {c d : Chord} (h : c ≤ d) : c.successor ≤ d.successor := by
  by_cases hd : d = infinity
  · rw [hd, show infinity.successor = infinity by decide]
    exact le_infinity _
  · have hc : c ≠ infinity := by
      rintro rfl
      exact hd (le_antisymm (le_infinity d) h)
    refine le_of_forall_lt fun e he => ?_
    rw [lt_successor_iff hd]
    exact ((lt_successor_iff hc).1 he).trans h

/-- No chord is above its successor. -/
lemma le_successor (c : Chord) : c ≤ c.successor := by
  by_cases hc : c = infinity
  · rw [hc]
    decide
  · exact ((lt_successor_iff hc).2 le_rfl).le

end Chord

end SphereSearch
