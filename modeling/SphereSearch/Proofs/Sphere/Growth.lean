import SphereSearch.Proofs.Sphere.Bounds
import SphereSearch.Proofs.Sphere.Caps

/-!
# Growing caps

A cap grows to hold points, one after the other.  What one addition does is said once
(`Cap.Grows`): the cap holds the new point, if it is finite, and all that it held, the radius does
not shrink, and the centre stays unless there was none.  So the cap after a sequence of finite
points holds them all (`Cap.contains_addPoints`), and from a cap that is not empty it is the least
cap around the same centre that does, in whatever order the points come (`Cap.addPoints_perm`).
-/

namespace SphereSearch

open Binary64

/-- A maximum that is taken from the left is the least bound of all numbers. -/
lemma foldl_max_le_iff {α β : Type} [LinearOrder β] (f : α → β) (l : List α) (m b : β) :
    l.foldl (fun m a => max m (f a)) m ≤ b ↔ m ≤ b ∧ ∀ a ∈ l, f a ≤ b := by
  induction l generalizing m with
  | nil => simp
  | cons a l ih => rw [List.foldl_cons, ih, max_le_iff, and_assoc, List.forall_mem_cons]

/-! ### Finite points -/

/-- Every coordinate is a number. -/
structure Point.IsFinite (p : Point) : Prop where
  x : p.x.isFinite
  y : p.y.isFinite
  z : p.z.isFinite

/-- A finite number differs from itself by nothing. -/
lemma Binary64.within_sub_self {x : Float} (hx : x.isFinite) : Binary64.Within 0 (x - x) := by
  have hzero : |value x - value x| ≤ (0 : ℕ) := by rw [sub_self, abs_zero, Nat.cast_zero]
  exact (rounds_sub hx hx (Or.inr (hzero.trans (natCast_le_two_pow_1023 (by decide))))).within
    (by decide) hzero

/-- A finite point is at no distance from itself. -/
lemma Chord.between_self {p : Point} (hp : p.IsFinite) : between p p = zero := by
  have hdiff : (p - p).Within 0 :=
    ⟨within_sub_self hp.x, within_sub_self hp.y, within_sub_self hp.z⟩
  have hnorm : Binary64.Within 0 (p.chord2 p) := hdiff.dot hdiff (by decide)
  have hzero : p.chord2 p == 0.0 := by
    rw [beq_iff_value hnorm.isFinite (by decide), value_zero]
    exact abs_nonpos_iff.1 (hnorm.abs_le.trans_eq Nat.cast_zero)
  simp only [between, ofLen2]
  rw [dif_neg (p.chord2_not_neg p), dif_pos hzero]

namespace Cap

variable {c : Cap} {p q : Point}

lemma contains_iff : c.contains p = true ↔ Chord.between c.center p ≤ c.radius :=
  decide_eq_true_iff

lemma isEmpty_eq_false_iff : c.isEmpty = false ↔ Chord.zero ≤ c.radius := by
  rw [isEmpty, ← Bool.not_eq_true, Chord.isNegative_iff, not_lt]

/-- A cap that holds a point is not empty. -/
lemma zero_le_radius_of_contains (h : c.contains q = true) : Chord.zero ≤ c.radius :=
  (Chord.zero_le_between _ _).trans (contains_iff.1 h)

/-! ### One addition -/

lemma addPoint_of_isEmpty (h : c.isEmpty = true) (p : Point) : c.addPoint p = ofPoint p :=
  if_pos h

lemma addPoint_of_zero_le (h : Chord.zero ≤ c.radius) (p : Point) :
    c.addPoint p = ⟨c.center, max c.radius (Chord.between c.center p)⟩ := by
  rw [addPoint, isEmpty_eq_false h, if_neg Bool.false_ne_true]

/-- What adding a point to a cap does. -/
structure Grows (c : Cap) (p : Point) (d : Cap) : Prop where
  /-- The point is held from now on, if it is finite. -/
  holds : p.IsFinite → d.contains p = true
  /-- So is all that was held before. -/
  keeps : ∀ q, c.contains q = true → d.contains q = true
  /-- The radius does not shrink. -/
  radius_le : c.radius ≤ d.radius
  /-- The centre stays, unless the cap was empty. -/
  center_eq : c.isEmpty = false → d.center = c.center
  /-- The cap is not empty any more. -/
  isEmpty_eq_false : d.isEmpty = false

lemma grows_addPoint (c : Cap) (p : Point) : c.Grows p (c.addPoint p) := by
  by_cases h : c.isEmpty = true
  · have hneg : c.radius < Chord.zero := Chord.isNegative_iff.1 h
    rw [addPoint_of_isEmpty h]
    exact {
      holds := fun hp => contains_iff.2 (Chord.between_self hp).le
      keeps := fun q hq => absurd (zero_le_radius_of_contains hq) (not_le.2 hneg)
      radius_le := hneg.le
      center_eq := fun hnot => absurd h (Bool.eq_false_iff.1 hnot)
      isEmpty_eq_false := isEmpty_eq_false_iff.2 le_rfl }
  · have hzero : Chord.zero ≤ c.radius := isEmpty_eq_false_iff.1 (Bool.eq_false_iff.2 h)
    rw [addPoint_of_zero_le hzero]
    exact {
      holds := fun _ => contains_iff.2 (le_max_right _ _)
      keeps := fun q hq => contains_iff.2 ((contains_iff.1 hq).trans (le_max_left _ _))
      radius_le := le_max_left _ _
      center_eq := fun _ => rfl
      isEmpty_eq_false := isEmpty_eq_false_iff.2 (hzero.trans (le_max_left _ _)) }

/-- A point at infinity is not held: what lies between it and itself is not a number. -/
example : (empty.addPoint ⟨infinity, 0.0, 0.0⟩).contains ⟨infinity, 0.0, 0.0⟩ = false := by
  decide +kernel

/-! ### Sequences of points -/

/-- The cap grown to hold points, one after the other. -/
def addPoints (c : Cap) (points : List Point) : Cap := points.foldl addPoint c

lemma addPoints_append (c : Cap) (points more : List Point) :
    c.addPoints (points ++ more) = (c.addPoints points).addPoints more :=
  List.foldl_append

/-- A cap that is not empty keeps its centre, and its radius grows to the greatest distance. -/
lemma addPoints_of_zero_le (h : Chord.zero ≤ c.radius) (points : List Point) :
    c.addPoints points =
      ⟨c.center, points.foldl (fun r p => max r (Chord.between c.center p)) c.radius⟩ := by
  induction points generalizing c with
  | nil => rfl
  | cons p points ih =>
    rw [addPoints, List.foldl_cons, addPoint_of_zero_le h]
    exact ih (h.trans (le_max_left _ _))

/-- A grown cap holds what the cap held before, and the finite points that were added. -/
lemma contains_addPoints {points : List Point}
    (h : c.contains q = true ∨ q ∈ points ∧ q.IsFinite) :
    (c.addPoints points).contains q = true := by
  induction points generalizing c with
  | nil => exact h.resolve_right fun hmem => List.not_mem_nil hmem.1
  | cons p points ih =>
    have hgrows := c.grows_addPoint p
    refine ih ?_
    rcases h with hbefore | ⟨hmem, hq⟩
    · exact Or.inl (hgrows.keeps q hbefore)
    · rcases List.mem_cons.1 hmem with rfl | hmem
      · exact Or.inl (hgrows.holds hq)
      · exact Or.inr ⟨hmem, hq⟩

/-- From a cap that is not empty, the order of the points does not matter. -/
lemma addPoints_perm (h : Chord.zero ≤ c.radius) {points points' : List Point}
    (hperm : points.Perm points') : c.addPoints points = c.addPoints points' := by
  rw [addPoints_of_zero_le h, addPoints_of_zero_le h]
  refine congrArg (Cap.mk c.center) (eq_of_forall_ge_iff fun b => ?_)
  simp only [foldl_max_le_iff, hperm.mem_iff]

end Cap

end SphereSearch
