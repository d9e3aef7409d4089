import SphereSearch.Proofs.Index.Ends
import SphereSearch.Proofs.Shape.Construction
import SphereSearch.Proofs.Shape.Numbering
import SphereSearch.Proofs.Sphere.CapDistance

/-!
# What the cap of an index holds

The cap of an index is grown from the ends of its edges, and holds them all
(`Index.between_le_radius_cap`).  If it is less than a half of the sphere, no edge leaves it, since
the way between two of its points stays inside (`Edge.meets_eq_false`).  So the boundary of a
polygon does not part the points outside the cap: a polygon holds all of them or none, and it holds
them exactly if the point opposite to the centre is inside (`Index.contains_beyond_cap_iff`).  The
cap holds the inside of the polygons of which it is not, and misses most of that of the others
(`Index.contains_south_beyond_cap`).
-/

namespace SphereSearch

open Binary64 RealInnerProductSpace

/-! ### Ways that stay in a cap -/

/-- A vector outside a cap around `c` that is less than a half of the sphere is no sum of multiples
of `c` and of vectors inside. -/
lemma smul_ne_of_inner_lt {E : Type*} [NormedAddCommGroup E] [InnerProductSpace ℝ E]
    {c p a b : E} {s k l m n : ℝ} (hc : ‖c‖ = 1) (ha : ‖a‖ = 1) (hb : ‖b‖ = 1) (hp : ‖p‖ = 1)
    (hs : 0 ≤ s) (hca : s ≤ ⟪c, a⟫) (hcb : s ≤ ⟪c, b⟫) (hcp : ⟪c, p⟫ < s) (hk : 0 < k)
    (hl : 0 ≤ l) (hm : 0 ≤ m) (hn : 0 ≤ n) : k • p ≠ l • c + m • a + n • b := by
  intro heq
  have hcc : ⟪c, c⟫ = 1 := by rw [real_inner_self_eq_norm_sq, hc, one_pow]
  have hs1 : s ≤ 1 := by
    have := real_inner_le_norm c a
    rw [hc, ha, one_mul] at this
    exact hca.trans this
  have hinner : k * ⟪c, p⟫ = l + m * ⟪c, a⟫ + n * ⟪c, b⟫ := by
    rw [← real_inner_smul_right, heq, inner_add_right, inner_add_right, real_inner_smul_right,
      real_inner_smul_right, real_inner_smul_right, hcc, mul_one]
  have hnorm : k ≤ l + m + n := by
    calc k = ‖k • p‖ := by rw [norm_smul, hp, mul_one, Real.norm_of_nonneg hk.le]
      _ ≤ ‖l • c‖ + ‖m • a‖ + ‖n • b‖ := heq ▸ norm_add₃_le
      _ = l + m + n := by
        rw [norm_smul, norm_smul, norm_smul, hc, ha, hb, mul_one, mul_one, mul_one,
          Real.norm_of_nonneg hl, Real.norm_of_nonneg hm, Real.norm_of_nonneg hn]
  -- The sum points at least as far towards the centre as the border of the cap does.
  have hfar : k * s ≤ k * ⟪c, p⟫ := by
    calc k * s ≤ (l + m + n) * s := mul_le_mul_of_nonneg_right hnorm hs
      _ = l * s + m * s + n * s := by ring
      _ ≤ l * 1 + m * ⟪c, a⟫ + n * ⟪c, b⟫ := by gcongr
      _ = k * ⟪c, p⟫ := by rw [mul_one, hinner]
  exact absurd (le_of_mul_le_mul_left hfar hk) (not_le.2 hcp)

namespace Point

@[simp]
lemma re_vec (p : Point) : p.vec.re = 0 := rfl

@[simp]
lemma imI_vec (p : Point) : p.vec.imI = value p.x := rfl

@[simp]
lemma imJ_vec (p : Point) : p.vec.imJ = value p.y := rfl

@[simp]
lemma imK_vec (p : Point) : p.vec.imK = value p.z := rfl

lemma vec_neg {p : Point} (h : p.isUnit) : (-p).vec = -p.vec := by
  have hw := within_of_isUnit h
  refine Quaternion.ext _ _ ?_ ?_ ?_ ?_
  · simp
  · rw [imI_vec, Quaternion.imI_neg, imI_vec]
    exact (value_neg hw.x.isFinite).2
  · rw [imJ_vec, Quaternion.imJ_neg, imJ_vec]
    exact (value_neg hw.y.isFinite).2
  · rw [imK_vec, Quaternion.imK_neg, imK_vec]
    exact (value_neg hw.z.isFinite).2

/-- Four vectors depend on each other, with determinants as coefficients. -/
lemma vec_combination (p q a b : Point) :
    (det a b q : ℝ) • p.vec + (det p q b : ℝ) • a.vec =
      (det a b p : ℝ) • q.vec + (det p q a : ℝ) • b.vec := by
  refine Quaternion.ext _ _ ?_ ?_ ?_ ?_
  · simp
  all_goals
    simp [det, value_eq_rational]
    ring

end Point

namespace Edge

/-- Edges that meet have a point in common: each of them reaches it, as a sum of its ends. -/
lemma exists_common_of_meets {p q a b : Point} (h : meets ⟨p, q⟩ ⟨a, b⟩ = true)
    (hb : Point.det p q b ≠ 0) (hp : Point.det a b p ≠ 0) (hq : Point.det a b q ≠ 0) :
    ∃ k l m n : ℝ, 0 < k ∧ 0 ≤ l ∧ 0 ≤ m ∧ 0 ≤ n ∧
      k • p.vec + l • q.vec = m • a.vec + n • b.vec := by
  simp only [meets, Point.left, Bool.and_eq_true, bne_iff_ne, ne_eq, decide_eq_decide,
    beq_iff_eq] at h
  obtain ⟨⟨hab, hpq⟩, hbp⟩ := h
  have hcombination := eq_sub_of_add_eq (Point.vec_combination p q a b)
  -- The ends of each edge are on different sides, so two of the coefficients are negative.
  rcases hb.lt_or_gt with hb | hb
  · have hp : Point.det a b p < 0 := lt_of_le_of_ne (not_lt.1 fun hgt => hb.not_gt (hbp.2 hgt)) hp
    have ha : 0 < Point.det p q a := not_le.1 fun hle => hab (iff_of_false hle.not_gt hb.not_gt)
    have hq : 0 < Point.det a b q := not_le.1 fun hle => hpq (iff_of_false hp.not_gt hle.not_gt)
    refine ⟨Point.det a b q, -Point.det a b p, -Point.det p q b, Point.det p q a, ?_, ?_, ?_, ?_,
      ?_⟩
    · exact_mod_cast hq
    · exact_mod_cast (neg_pos.2 hp).le
    · exact_mod_cast (neg_pos.2 hb).le
    · exact_mod_cast ha.le
    · rw [hcombination]
      module
  · have hp : 0 < Point.det a b p := hbp.1 hb
    have ha : Point.det p q a ≤ 0 := not_lt.1 fun hgt => hab (iff_of_true hgt hb)
    have hq : Point.det a b q < 0 :=
      lt_of_le_of_ne (not_lt.1 fun hgt => hpq (iff_of_true hp hgt)) hq
    refine ⟨-Point.det a b q, Point.det a b p, Point.det p q b, -Point.det p q a, ?_, ?_, ?_, ?_,
      ?_⟩
    · exact_mod_cast neg_pos.2 hq
    · exact_mod_cast hp.le
    · exact_mod_cast hb.le
    · exact_mod_cast neg_nonneg.2 ha
    · rw [neg_smul, hcombination]
      module

/-- An edge whose ends are in a cap that is less than a half of the sphere does not meet the way
from the point opposite to the centre to a point outside. -/
lemma meets_eq_false {c p a b : Point} {r : ℝ} (hc : c.isUnit) (hp : p.isUnit) (ha : a.isUnit)
    (hb : b.isUnit) (hr : r + 1e-11 ≤ 2)
    (hpr : r + 1e-11 ≤ value (Chord.between c p).len2)
    (har : value (Chord.between c a).len2 ≤ r) (hbr : value (Chord.between c b).len2 ≤ r)
    (hbdet : Point.det p (-c) b ≠ 0) (hpdet : Point.det a b p ≠ 0)
    (hcdet : Point.det a b (-c) ≠ 0) : meets ⟨p, -c⟩ ⟨a, b⟩ = false := by
  rw [← Bool.not_eq_true]
  intro hmeets
  obtain ⟨k, l, m, n, hk, hl, hm, hn, heq⟩ := exists_common_of_meets hmeets hbdet hpdet hcdet
  -- In terms of directions, the border of the cap is where the part along the centre is `s`.
  have hinner : ∀ {q : Point}, q.isUnit →
      |value (Chord.between c q).len2 - (2 - 2 * ⟪c.direction, q.direction⟫)| ≤ 4.2e-12 := by
    intro q hq
    have herror := (Chord.abs_between_sub_direction_le hc hq).2
    rwa [norm_sub_sq_of_norm_one (Point.norm_direction hc) (Point.norm_direction hq)] at herror
  have hpi := abs_le.1 (hinner hp)
  have hai := abs_le.1 (hinner ha)
  have hbi := abs_le.1 (hinner hb)
  refine smul_ne_of_inner_lt (s := 1 - (r + 4.2e-12) / 2) (Point.norm_direction hc)
    (Point.norm_direction ha) (Point.norm_direction hb) (Point.norm_direction hp) (by linarith)
    (by linarith) (by linarith) (by linarith) (mul_pos hk (Point.norm_vec_pos hp))
    (mul_nonneg hl (norm_nonneg c.vec)) (mul_nonneg hm (norm_nonneg a.vec))
    (mul_nonneg hn (norm_nonneg b.vec)) ?_
  rw [mul_smul, mul_smul, mul_smul, mul_smul, Point.norm_smul_direction hp,
    Point.norm_smul_direction hc, Point.norm_smul_direction ha, Point.norm_smul_direction hb]
  rw [Point.vec_neg hc] at heq
  rw [add_assoc, ← heq]
  module

end Edge

/-! ### The insides of polygons -/

/-- A way that meets no edge meets an even number of them. -/
lemma Point.meetsOdd_eq_false {p q : Point} {edges : List Edge}
    (h : ∀ e ∈ edges, Edge.meets ⟨p, q⟩ e = false) : p.meetsOdd q edges = false := by
  rw [meetsOdd]
  induction edges with
  | nil => rfl
  | cons e edges ih =>
    obtain ⟨hfirst, hrest⟩ := List.forall_mem_cons.1 h
    rw [parity_cons, hfirst, Bool.false_xor]
    exact ih hrest

namespace Polygon

variable {g : Polygon} {p q : Point} {e : Edge}

/-- Whether two points are inside is told by crossings that are computed right, and no three of the
points involved lie on a great circle. -/
structure Resolves (g : Polygon) (p q : Point) : Prop where
  left : g.reference.point.Decided p g.edges
  right : g.reference.point.Decided q g.edges
  apart : ∀ e ∈ g.edges, Edge.Apart g.reference.point p q e

/-- In general position, points are on the same side if the way between them does not meet the
boundary. -/
lemma Resolves.contains_eq (h : g.Resolves p q)
    (hmeets : ∀ e ∈ g.edges, Edge.meets ⟨p, q⟩ e = false) : g.contains p = g.contains q := by
  have hclosed := g.closed_edges
  have htriangle := Point.meetsOdd_triangle hclosed h.apart
  have hreverse : q.meetsOdd g.reference.point g.edges = g.reference.point.meetsOdd q g.edges :=
    (Point.meetsOdd_comm fun e he => ⟨(h.apart e he).wuc, (h.apart e he).wud⟩).symm
  rw [Point.meetsOdd_eq_false hmeets, Bool.xor_false, hreverse,
    ← Point.crossesOdd_eq_meetsOdd hclosed h.left,
    ← Point.crossesOdd_eq_meetsOdd hclosed h.right] at htriangle
  rw [contains, contains, bne_eq_false_iff_eq.1 htriangle]

lemma edges_eq (g : Polygon) : (Shape.polygon g).edges = g.edges := by
  rw [g.numbered.edges_eq]
  simp only [← Loop.edges_eq_zipWith]
  rfl

lemma isUnit_of_mem_edges (hunit : ∀ l ∈ g.loops, ∀ v ∈ l, v.isUnit) (he : e ∈ g.edges) :
    e.start.isUnit ∧ e.stop.isUnit := by
  obtain ⟨l, hl, he⟩ := List.mem_flatMap.1 he
  obtain ⟨j, hj⟩ := Loop.mem_edges.1 he
  rw [Loop.edge?] at hj
  split at hj
  · obtain rfl := Option.some.inj hj
    exact ⟨hunit l hl _ (Array.getElem_mem _), hunit l hl _ (Array.getElem_mem _)⟩
  · cases hj

end Polygon

/-- A way with a turn has to be sharp in both parts, and its turn apart. -/
lemma Point.Decided.of_turn {p q : Point} (turn : Point) {edges : List Edge}
    (hpath : p.path q = [⟨p, turn⟩, ⟨turn, q⟩])
    (hsharp : ∀ leg ∈ [(⟨p, turn⟩ : Edge), ⟨turn, q⟩], ∀ e ∈ edges, leg.Sharp e)
    (hapart : ∀ e ∈ edges, Edge.Apart p turn q e) : p.Decided q edges := by
  refine ⟨hpath ▸ hsharp, fun turn' hturn' => ?_⟩
  rw [hpath, List.cons.injEq, Edge.mk.injEq] at hturn'
  obtain ⟨⟨-, rfl⟩, -⟩ := hturn'
  exact hapart

/-- The cap is less than a half of the sphere, and the point is outside, both by more than the error
of a distance. -/
structure Cap.Beyond (c : Cap) (p : Point) : Prop where
  narrow : value c.radius.len2 + 1e-11 ≤ 2
  far : value c.radius.len2 + 1e-11 ≤ value (Chord.between c.center p).len2

namespace Index

variable {shapes : List Shape} {g : Polygon} {e : Edge}

/-- The edges of a polygon of an index have their ends in its cap. -/
lemma between_le_radius_of_mem (settings : Settings) (hg : .polygon g ∈ shapes)
    (he : e ∈ g.edges) :
    let c := (build shapes settings).cap
    Chord.zero ≤ c.radius ∧ c.radius ≤ Chord.straight ∧
      Chord.between c.center e.start ≤ c.radius ∧ Chord.between c.center e.stop ≤ c.radius := by
  obtain ⟨i, hi⟩ := List.mem_iff_getElem?.1 hg
  obtain ⟨k, hk⟩ := List.mem_iff_getElem?.1 (g.edges_eq ▸ he)
  rw [Shape.getElem?_edges] at hk
  exact between_le_radius_cap (x := build shapes settings) (r := ⟨i, k, e⟩)
    (EdgeRef.mem_all.2 ⟨_, hi, hk⟩)

/-- **What the cap of an index holds.**  With a full polygon it holds every point.  If it is less
than a half of the sphere, a polygon of the index holds a point outside, in general position,
exactly if it holds the point opposite to the centre. -/
theorem contains_beyond_cap_iff (shapes : List Shape) (settings : Settings) :
    let c := (build shapes settings).cap
    ((∃ s ∈ shapes, s.isFull = true) → ∀ p, c.contains p = true) ∧
    ∀ g : Polygon, .polygon g ∈ shapes → (∀ l ∈ g.loops, ∀ v ∈ l, v.isUnit) → c.center.isUnit →
      ∀ p : Point, p.isUnit → c.Beyond p → g.Resolves p (-c.center) →
        (g.contains p ↔ g.contains (-c.center)) := by
  refine ⟨fun hfull p => ?_, fun g hg hunit hc p hp hbeyond hresolves => ?_⟩
  · have hcap : (build shapes settings).cap = Cap.full := by
      rw [cap, if_pos]
      obtain ⟨s, hs, hfull⟩ := hfull
      exact Array.any_eq_true'.2 ⟨s, List.mem_toArray.2 hs, hfull⟩
    rw [hcap]
    exact decide_eq_true (Chord.between_le_straight _ _)
  · rw [hresolves.contains_eq fun e he => ?_]
    obtain ⟨hzero, hstraight, hstart, hstop⟩ := between_le_radius_of_mem settings hg he
    obtain ⟨hstartUnit, hstopUnit⟩ := Polygon.isUnit_of_mem_edges hunit he
    have hvalue : ∀ {q : Point}, Chord.between (build shapes settings).cap.center q ≤
        (build shapes settings).cap.radius → value (Chord.between _ q).len2 ≤ _ :=
      (Chord.le_iff_value_len2 (Chord.zero_le_between _ _) (Chord.between_le_straight _ _) hzero
        hstraight).1
    have hapart := hresolves.apart e he
    exact Edge.meets_eq_false hc hp hstartUnit hstopUnit hbeyond.narrow hbeyond.far
      (hvalue hstart) (hvalue hstop) hapart.vwd hapart.cdv hapart.cdw

/-- A triangle that is written clockwise, so that the rest of the sphere is inside, with the
reference point that is found at its first vertex. -/
def clockwise : Polygon :=
  ⟨[#[⟨0.8, 0.0, 0.6⟩, ⟨0.0, 0.0, 1.0⟩, ⟨0.0, 1.0, 0.0⟩]],
    ⟨⟨.ofBits 0x3FE99D1281D9E782, .ofBits 0xBF472BA3FF3524DA, .ofBits 0x3FE32E903E23AD06⟩, true⟩⟩

/-- A point on the other half of the sphere. -/
def across : Point := ⟨0.64, -0.48, -0.6⟩

/-- The cap around the triangle. -/
def aroundClockwise : Cap := (build [.polygon clockwise] Settings.default).cap

lemma beyond_across : aroundClockwise.Beyond across := by
  have hnarrow : rational aroundClockwise.radius.len2 + 1 / 10 ^ 11 ≤ 2 := by decide +kernel
  have hfar : rational aroundClockwise.radius.len2 + 1 / 10 ^ 11 ≤
      rational (Chord.between aroundClockwise.center across).len2 := by
    decide +kernel
  rw [← Rat.cast_le (K := ℝ)] at hnarrow hfar
  push_cast at hnarrow hfar
  constructor
  · rw [value_eq_rational]
    linarith
  · rw [value_eq_rational, value_eq_rational]
    linarith

lemma resolves_across : clockwise.Resolves across (-aroundClockwise.center) where
  left := .of_direct (by decide +kernel) (by decide +kernel)
  right := .of_turn (clockwise.reference.point + -aroundClockwise.center).normalize
    (by decide +kernel) (by decide +kernel) (by decide +kernel)
  apart := by decide +kernel

/-- Outside the cap of a clockwise triangle, a point is inside, as is the point opposite to the
centre. -/
theorem contains_across_iff :
    aroundClockwise.center.isUnit ∧ across.isUnit ∧ aroundClockwise.Beyond across ∧
      clockwise.Resolves across (-aroundClockwise.center) ∧
      (clockwise.contains across ↔ clockwise.contains (-aroundClockwise.center)) := by
  obtain ⟨-, h⟩ := contains_beyond_cap_iff [.polygon clockwise] Settings.default
  have hcenter : aroundClockwise.center.isUnit := by decide +kernel
  have hacross : across.isUnit := by decide +kernel
  exact ⟨hcenter, hacross, beyond_across, resolves_across, h clockwise (List.mem_singleton_self _)
    (by decide +kernel) hcenter across hacross beyond_across resolves_across⟩

/-- A square around the north pole, written clockwise, with the reference point that is found. -/
def aroundPole : Polygon :=
  ⟨[#[⟨0.6, 0.0, 0.8⟩, ⟨0.0, -0.6, 0.8⟩, ⟨-0.6, 0.0, 0.8⟩, ⟨0.0, 0.6, 0.8⟩]],
    ⟨⟨.ofBits 0x3FE339C04ACBF845, .ofBits 0, .ofBits 0x3FE994AE785BAF13⟩, true⟩⟩

/-- The south pole is inside the square, and the cap of its index does not hold it. -/
theorem contains_south_beyond_cap :
    (Polygon.ofLoops aroundPole.loops).isOk ∧ (-Point.north).isUnit ∧
      aroundPole.contains (-Point.north) = true ∧
      (build [.polygon aroundPole] Settings.default).cap.contains (-Point.north) = false := by
  refine ⟨?_, ?_, ?_, ?_⟩
  · decide +kernel
  · decide +kernel
  · decide +kernel
  · decide +kernel

end Index

end SphereSearch
