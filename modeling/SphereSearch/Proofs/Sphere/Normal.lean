import SphereSearch.Proofs.Number.Opposite
import SphereSearch.Proofs.Sphere.Limit

/-!
# Chords made from plain doubles

A `Chord` carries the proof that its double is in range.  Here the operations that make chords run
on doubles alone, with nothing to keep them in range but what they compute (`Plain`), and a term
over these operations (`Term`), with any doubles and points at its leaves, is evaluated both ways.
Both give the same double (`Term.len2_chord`), whatever square roots, sines, infinities and NaNs
come up on the way.  So the doubles of chords are the normal ones (`Normal`) and no others, and on
these the total order of bit patterns is the order of numbers (`Term.double_normal`).
-/

namespace SphereSearch.Chord

open Binary64

/-! ### Normal doubles -/

/-- Minus one, zero without a sign, a number above zero and at most four, or infinity. -/
def Normal (x : Float) : Prop :=
  x = -1.0 ∨ x = 0.0 ∨ (0.0 < x ∧ x ≤ 4.0) ∨ x = Binary64.infinity

lemma normal_iff {x : Float} : Normal x ↔ InRange x := by
  have hfour : (4.0 : Float).toBits.toNat ≤ infinityWord := by decide
  have hzero : (0.0 : Float).toBits.toNat ≤ infinityWord := by decide
  constructor
  · rintro (rfl | rfl | ⟨hpos, hle⟩ | rfl)
    · exact Or.inr (Or.inl rfl)
    · decide
    · left
      rwa [le_iff_toBits (toBits_le_of_lt hzero hpos) hfour, ← UInt64.le_iff_toNat_le] at hle
    · exact Or.inr (Or.inr rfl)
  · rintro (hle | rfl | rfl)
    · rw [UInt64.le_iff_toNat_le] at hle
      have hword : x.toBits.toNat ≤ infinityWord := hle.trans hfour
      rcases Nat.eq_zero_or_pos x.toBits.toNat with hbits | hbits
      · right
        left
        exact eq_of_toBits (UInt64.toNat_inj.1 (hbits.trans (by decide)))
      · refine Or.inr (Or.inr (Or.inl ⟨?_, (le_iff_toBits hword hfour).2 hle⟩))
        rwa [lt_iff_toBits hzero hword, show (0.0 : Float).toBits.toNat = 0 by decide]
    · exact Or.inl rfl
    · exact Or.inr (Or.inr (Or.inr rfl))

/-- Doubles of chords compare as numbers as the chords do. -/
lemma compare_len2 (c d : Chord) :
    c.len2.toModel.unpack.compare d.len2.toModel.unpack = some (compare c.place d.place) := by
  have hnegative : ∀ c : Chord, zero ≤ c →
      negative.len2.toModel.unpack.compare c.len2.toModel.unpack = some .lt ∧
        negative.place < c.place := by
    intro c hc
    refine ⟨lt_iff_compare.1 (neg_one_lt (toBits_le_infinityWord hc)), ?_⟩
    rw [le_iff_place, place_zero] at hc
    rw [place_negative]
    omega
  -- Words only tell the order of doubles without a sign, and `negative` has one.
  by_cases hc : c = negative
  · subst hc
    by_cases hd : d = negative
    · subst hd
      decide
    · obtain ⟨hlen, hplace⟩ := hnegative d (zero_le_of_ne_negative hd)
      rw [hlen, Nat.compare_eq_lt.2 hplace]
  · have hczero := zero_le_of_ne_negative hc
    by_cases hd : d = negative
    · subst hd
      obtain ⟨hlen, hplace⟩ := hnegative c hczero
      rw [unpacked_compare_swap, hlen, Nat.compare_eq_gt.2 hplace]
      rfl
    · have hdzero := zero_le_of_ne_negative hd
      rw [compare_unpack (toBits_le_infinityWord hczero) (toBits_le_infinityWord hdzero),
        place_of_zero_le hczero, place_of_zero_le hdzero]
      simp only [Nat.compare_eq_ite_lt, Nat.add_lt_add_iff_left]

lemma len2_isNaN (c : Chord) : c.len2.isNaN = false := by
  by_cases h : c = negative
  · rw [h]
    decide
  · exact isNaN_eq_false (toBits_le_infinityWord (zero_le_of_ne_negative h))

lemma len2_ne_neg_zero (c : Chord) : c.len2 ≠ -0.0 := by
  intro h
  have hrange := c.inRange
  rw [h] at hrange
  exact absurd hrange (by decide)

section Orders

variable (c d : Chord)

lemma orderKey_lt_iff_len2 : c.orderKey < d.orderKey ↔ c.len2 < d.len2 := by
  rw [lt_iff_compare, compare_len2, Option.some_inj, Nat.compare_eq_lt]
  exact lt_iff_place

lemma orderKey_le_iff_len2 : c.orderKey ≤ d.orderKey ↔ c.len2 ≤ d.len2 := by
  rw [le_iff_compare, compare_len2, Option.any_some, Nat.isLE_compare]
  exact le_iff_place

lemma orderKey_eq_iff_len2 : c.orderKey = d.orderKey ↔ c.len2 == d.len2 := by
  rw [beq_iff_compare, compare_len2, Option.some_inj, Nat.compare_eq_eq]
  exact UInt64.toNat_inj.symm

end Orders

/-! ### The operations on plain doubles -/

namespace Plain

/-- The double of the chord with the given squared length. -/
def ofLen2 (x : Float) : Float :=
  if x < 0.0 then -1.0 else if x == 0.0 then 0.0 else minNum x 4.0

/-- The double of the chord of an angle in radians. -/
def ofRadians (angle : Float) : Float :=
  if angle < 0.0 then -1.0
  else if angle.isInf then Binary64.infinity
  else
    let length := 2.0 * (0.5 * minNum angle Binary64.pi).sin
    ofLen2 (length * length)

/-- The double after another one. -/
def successor (x : Float) : Float :=
  if x ≥ 4.0 then Binary64.infinity else if x < 0.0 then 0.0 else nextUp x

/-- The double before another one. -/
def predecessor (x : Float) : Float :=
  if x ≤ 0.0 then -1.0 else if x > 4.0 then 4.0 else ofLen2 (nextDown x)

/-- Whether a double stands for no distance. -/
def isSpecial (x : Float) : Bool := x < 0.0 || x.isInf

/-- Adds an error. -/
def widen (x error : Float) : Float :=
  if isSpecial x then x else ofLen2 (maxNum (x + error) 0.0)

/-- The double of a sum of angles. -/
def add (x y : Float) : Float :=
  if y ≤ 0.0 || isSpecial x then x
  else if x + y ≥ 4.0 then 4.0
  else
    let p := x * (1.0 - 0.25 * y)
    let q := y * (1.0 - 0.25 * x)
    ofLen2 (p + q + 2.0 * (p * q).sqrt)

/-- The double of a difference of angles. -/
def sub (x y : Float) : Float :=
  if y ≤ 0.0 || isSpecial x then x
  else if x ≤ y then 0.0
  else
    let p := x * (1.0 - 0.25 * y)
    let q := y * (1.0 - 0.25 * x)
    ofLen2 (maxNum (p + q - 2.0 * (p * q).sqrt) 0.0)

instance (e : Edge) (x : Point) (toStart toStop : Float) :
    Decidable (e.Outside x toStart toStop) :=
  inferInstanceAs (Decidable (_ ∨ _ ∨ _ ∨ _))

/-- The squared distance to the interior of an edge, if it is below `least`. -/
def interiorLen2? (e : Edge) (x : Point) (toStart toStop least : Float) : Option Float :=
  if e.Outside x toStart toStop then none
  else if e.height2 x > e.normal2 * least then none
  else if e.circleLen2 x ≥ least then none else some (e.circleLen2 x)

/-- The least distance after measuring the one of a point to an edge. -/
def toPoint (e : Edge) (x : Point) (least : Float) : Float :=
  let toStart := x.chord2 e.start
  let toStop := x.chord2 e.stop
  match interiorLen2? e x toStart toStop least with
  | some len2 => ofLen2 len2
  | none => if minNum toStart toStop ≥ least then least else ofLen2 (minNum toStart toStop)

/-- The least distance after measuring the one of two edges. -/
def toEdge (e f : Edge) (least : Float) : Float :=
  if least == 0.0 then least
  else if e.crosses f then 0.0
  else toPoint e f.stop (toPoint e f.start (toPoint f e.stop (toPoint f e.start least)))

end Plain

/-! ### Terms -/

/-- How a chord comes about: from a constant, from doubles or points, or from other chords. -/
inductive Term where
  | zero
  | right
  | straight
  | infinity
  | negative
  | default
  | ofLen2 (len2 : Float)
  | ofRadians (angle : Float)
  | ofDegrees (angle : Float)
  | between (p q : Point)
  | successor (c : Term)
  | predecessor (c : Term)
  | widen (c : Term) (error : Float)
  | add (c d : Term)
  | sub (c d : Term)
  /-- A running minimum after a measurement of a point to an edge. -/
  | toPoint (e : Edge) (x : Point) (least : Term)
  /-- A running minimum after a measurement between edges. -/
  | toEdge (e f : Edge) (least : Term)

namespace Term

/-- The chord that comes about. -/
def chord : Term → Chord
  | zero => Chord.zero
  | right => Chord.right
  | straight => Chord.straight
  | infinity => Chord.infinity
  | negative => Chord.negative
  | default => Inhabited.default
  | ofLen2 len2 => Chord.ofLen2 len2
  | ofRadians angle => Chord.ofRadians angle
  | ofDegrees angle => Chord.ofDegrees angle
  | between p q => Chord.between p q
  | successor c => c.chord.successor
  | predecessor c => c.chord.predecessor
  | widen c error => c.chord.widen error
  | add c d => c.chord + d.chord
  | sub c d => c.chord - d.chord
  | toPoint e x least => (e.closerPoint? x least.chord).getD least.chord
  | toEdge e f least => (e.closerEdge? f least.chord).getD least.chord

/-- The double that is computed without any proof. -/
def double : Term → Float
  | zero => 0.0
  | right => 2.0
  | straight => 4.0
  | infinity => Binary64.infinity
  | negative => -1.0
  | default => 0.0
  | ofLen2 len2 => Plain.ofLen2 len2
  | ofRadians angle => Plain.ofRadians angle
  | ofDegrees angle => Plain.ofRadians (toRadians angle)
  | between p q => Plain.ofLen2 (p.chord2 q)
  | successor c => Plain.successor c.double
  | predecessor c => Plain.predecessor c.double
  | widen c error => Plain.widen c.double error
  | add c d => Plain.add c.double d.double
  | sub c d => Plain.sub c.double d.double
  | toPoint e x least => Plain.toPoint e x least.double
  | toEdge e f least => Plain.toEdge e f least.double

end Term

/-! ### Both evaluations agree -/

lemma len2_ofLen2 (x : Float) : (ofLen2 x).len2 = Plain.ofLen2 x := by
  rw [ofLen2, Plain.ofLen2]
  split_ifs <;> rfl

lemma len2_ofRadians (angle : Float) : (ofRadians angle).len2 = Plain.ofRadians angle := by
  rw [ofRadians, Plain.ofRadians]
  split_ifs
  · rfl
  · rfl
  · exact len2_ofLen2 _

lemma len2_successor (c : Chord) : c.successor.len2 = Plain.successor c.len2 := by
  rw [successor, Plain.successor]
  split_ifs <;> rfl

lemma len2_predecessor (c : Chord) : c.predecessor.len2 = Plain.predecessor c.len2 := by
  rw [predecessor, Plain.predecessor]
  split_ifs
  · rfl
  · rfl
  · exact len2_ofLen2 _

/-- Of the chords, only the one above all has an infinite double. -/
lemma isSpecial_len2 (c : Chord) : Plain.isSpecial c.len2 = c.isSpecial := by
  rcases special_or_distance c with rfl | rfl | ⟨hbits, -⟩
  · decide
  · decide
  · have hword : c.len2.toBits.toNat < infinityWord := hbits.trans_lt (by decide)
    have hneg : ¬ c.len2 < 0.0 := by
      rw [lt_iff_toBits hword.le (by decide)]
      exact Nat.not_lt_zero _
    have hinf : c.len2.isInf = false := by
      have hfinite : c.len2.toModel.unpack.isFinite = true := isFinite_of_toBits_lt hword
      show c.len2.toModel.unpack.isInf = false
      cases h : c.len2.toModel.unpack with
      | infinity s =>
        rw [h] at hfinite
        cases hfinite
      | _ => rfl
    rw [isSpecial_eq_false hbits, Plain.isSpecial, decide_eq_false hneg, hinf]
    rfl

lemma len2_widen (c : Chord) (error : Float) : (c.widen error).len2 = Plain.widen c.len2 error := by
  rw [widen, Plain.widen, isSpecial_len2]
  split_ifs
  · rfl
  · exact len2_ofLen2 _

lemma len2_add (c d : Chord) : (c + d).len2 = Plain.add c.len2 d.len2 := by
  show (add c d).len2 = _
  rw [add, Plain.add, isSpecial_len2]
  split_ifs
  · rfl
  · rfl
  · exact len2_ofLen2 _

lemma len2_sub (c d : Chord) : (c - d).len2 = Plain.sub c.len2 d.len2 := by
  show (sub c d).len2 = _
  rw [sub, Plain.sub, isSpecial_len2]
  split_ifs
  · rfl
  · rfl
  · exact len2_ofLen2 _

section Measurements

variable (e f : Edge) (x : Point) (m : Chord)

lemma interiorLen2?_eq (toStart toStop : Float) :
    e.interiorLen2? x toStart toStop m = Plain.interiorLen2? e x toStart toStop m.len2 := by
  rw [Plain.interiorLen2?]
  by_cases hout : e.Outside x toStart toStop
  · rw [if_pos hout, Edge.interiorLen2?_of_outside hout]
  · rw [if_neg hout, Edge.interiorLen2?_of_not_outside hout]

lemma len2_toPoint : ((e.closerPoint? x m).getD m).len2 = Plain.toPoint e x m.len2 := by
  simp only [Edge.closerPoint?, Plain.toPoint, interiorLen2?_eq]
  cases Plain.interiorLen2? e x (x.chord2 e.start) (x.chord2 e.stop) m.len2 with
  | some len2 => exact len2_ofLen2 len2
  | none =>
    by_cases hge : minNum (x.chord2 e.start) (x.chord2 e.stop) ≥ m.len2
    · simp only [if_pos hge, Option.getD_none]
    · simp only [if_neg hge, Option.getD_some]
      exact len2_ofLen2 _

/-- A chain of tests leaves the minimum that its tests leave one after the other. -/
lemma getD_chain (tests : List Closer) :
    (Closer.chain tests m).getD m = tests.foldl (fun m test => (test m).getD m) m := by
  -- What has been found is carried along by one fold, and the minimum by the other.
  have hfold : ∀ (tests : List Closer) (found : Option Chord),
      (tests.foldl (fun found test => (test (found.getD m)).or found) found).getD m =
        tests.foldl (fun m test => (test m).getD m) (found.getD m) := by
    intro tests
    induction tests with
    | nil => exact fun found => rfl
    | cons test rest ih =>
      intro found
      rw [List.foldl_cons, List.foldl_cons, ih]
      cases test (found.getD m) <;> rfl
  exact hfold tests none

lemma len2_toEdge : ((e.closerEdge? f m).getD m).len2 = Plain.toEdge e f m.len2 := by
  rw [Edge.closerEdge?, Plain.toEdge, isZero]
  by_cases hzero : m.len2 == 0.0
  · rw [if_pos hzero, if_pos hzero]
    rfl
  · rw [if_neg hzero, if_neg hzero]
    by_cases hcross : e.crosses f
    · rw [if_pos hcross, if_pos hcross]
      rfl
    · rw [if_neg hcross, if_neg hcross, getD_chain, ← len2_toPoint f e.start,
        ← len2_toPoint f e.stop, ← len2_toPoint e f.start, ← len2_toPoint e f.stop]
      rfl

end Measurements

namespace Term

/-- **Proofs are not needed.**  A term gives the same double whether or not its chords carry their
proofs. -/
lemma len2_chord (t : Term) : t.chord.len2 = t.double := by
  induction t with
  | zero => rfl
  | right => rfl
  | straight => rfl
  | infinity => rfl
  | negative => rfl
  | default => rfl
  | ofLen2 len2 => exact len2_ofLen2 len2
  | ofRadians angle => exact len2_ofRadians angle
  | ofDegrees angle => exact len2_ofRadians _
  | between p q => exact len2_ofLen2 _
  | successor c ih => rw [chord, len2_successor, ih, double]
  | predecessor c ih => rw [chord, len2_predecessor, ih, double]
  | widen c error ih => rw [chord, len2_widen, ih, double]
  | add c d ihc ihd => rw [chord, len2_add, ihc, ihd, double]
  | sub c d ihc ihd => rw [chord, len2_sub, ihc, ihd, double]
  | toPoint e x least ih => rw [chord, len2_toPoint, ih, double]
  | toEdge e f least ih => rw [chord, len2_toEdge, ih, double]

lemma exists_double_eq {x : Float} (h : Normal x) : ∃ t : Term, t.double = x := by
  rcases h with rfl | rfl | ⟨hpos, hle⟩ | rfl
  · exact ⟨negative, rfl⟩
  · exact ⟨zero, rfl⟩
  · refine ⟨ofLen2 x, ?_⟩
    have hfour : (4.0 : Float).toBits.toNat ≤ infinityWord := by decide
    have hword : x.toBits.toNat ≤ infinityWord := toBits_le_of_lt (by decide) hpos
    rw [le_iff_toBits hword hfour, toNat_toBits_four] at hle
    have hbits := toNat_toBits_ofLen2 hword
    rw [min_eq_left hle, len2_ofLen2] at hbits
    exact eq_of_toBits (UInt64.toNat_inj.1 hbits)
  · exact ⟨infinity, rfl⟩

/-- **Chords are normal.**  The doubles that come about are the normal ones: none is a NaN or a zero
with a sign.  On them the total order of bit patterns is the order of numbers, and the same bits are
the same number. -/
theorem double_normal :
    (∀ x : Float, (∃ t : Term, t.double = x) ↔ Normal x) ∧
    (∀ t : Term, t.chord.len2 = t.double ∧ t.double.isNaN = false ∧ t.double ≠ -0.0) ∧
    ∀ s t : Term,
      (Binary64.orderKey s.double < Binary64.orderKey t.double ↔ s.double < t.double) ∧
      (Binary64.orderKey s.double ≤ Binary64.orderKey t.double ↔ s.double ≤ t.double) ∧
      (Binary64.orderKey s.double = Binary64.orderKey t.double ↔ s.double == t.double) := by
  refine ⟨fun x => ⟨?_, exists_double_eq⟩, fun t => ?_, fun s t => ?_⟩
  · rintro ⟨t, rfl⟩
    rw [← len2_chord]
    exact normal_iff.2 t.chord.inRange
  · rw [← len2_chord]
    exact ⟨rfl, len2_isNaN _, len2_ne_neg_zero _⟩
  · rw [← len2_chord, ← len2_chord]
    exact ⟨orderKey_lt_iff_len2 _ _, orderKey_le_iff_len2 _ _, orderKey_eq_iff_len2 _ _⟩

/-- A NaN counts as the greatest distance, and a zero loses its sign. -/
example : (ofLen2 (0.0 / 0.0)).double = 4.0 ∧ (ofLen2 (-0.0)).double = 0.0 := by decide +kernel

end Term

end SphereSearch.Chord
