import SphereSearch.Proofs.Sphere.Bounds
import SphereSearch.Proofs.Sphere.ChordDifference
import SphereSearch.Proofs.Sphere.EdgeDistance

/-!
# What a limit does to a distance

`Edge.closerPoint?` measures against a limit, and it gives up the interior of an edge early: when
the plane of the edge is too far away, and when the distance to the interior is not below the limit.
Between points of unit length the first exit is harmless, as rounding keeps order: whoever takes it
would have been stopped by the second one (`Edge.le_circleLen2`).  So a limit only hides an
interior distance that is not below it (`Edge.interiorLen2?_eq_filter`).

It is then that the nearer end is asked.  Its distance is rounded on its own, so that it can be less
than that of the interior; where it is not, the distance does not depend on the limit
(`Edge.closerPoint?_limit`).
-/

namespace SphereSearch

open Binary64

namespace Chord

/-! ### Chords of numbers -/

lemma toNat_toBits_ofLen2 {q : Float} (hq : q.toBits.toNat ≤ infinityWord) :
    (ofLen2 q).len2.toBits.toNat = min q.toBits.toNat 0x4010000000000000 := by
  have hfour : (4.0 : Float).toBits.toNat ≤ infinityWord := by decide
  have hneg : ¬ q < 0.0 := by
    rw [lt_iff_toBits hq (by decide)]
    exact Nat.not_lt_zero _
  simp only [ofLen2]
  rw [dif_neg hneg]
  by_cases hzero : q == 0.0
  · rw [dif_pos hzero]
    rw [beq_iff_compare, compare_unpack hq (by decide), Option.some_inj, Nat.compare_eq_eq] at hzero
    rw [hzero]
    decide
  · rw [dif_neg hzero]
    show (minNum q 4.0).toBits.toNat = _
    simp only [minNum]
    rw [show (4.0 : Float).isNaN = false by decide, Bool.or_false, ← toNat_toBits_four]
    by_cases hlt : q < 4.0
    · rw [if_pos (decide_eq_true hlt)]
      rw [lt_iff_toBits hq hfour] at hlt
      exact (min_eq_left hlt.le).symm
    · rw [if_neg (by simpa using hlt)]
      rw [lt_iff_toBits hq hfour] at hlt
      exact (min_eq_right (Nat.le_of_not_lt hlt)).symm

lemma zero_le_ofLen2_of_le {q : Float} (hq : q.toBits.toNat ≤ infinityWord) : zero ≤ ofLen2 q := by
  refine zero_le_ofLen2 ?_
  rw [lt_iff_toBits hq (by decide)]
  exact Nat.not_lt_zero _

lemma ge_iff_not_lt {q : Float} {m : Chord} (hq : q.toBits.toNat ≤ infinityWord) (hm : zero ≤ m) :
    q ≥ m.len2 ↔ ¬ q < m.len2 := by
  rw [ge_iff_le, le_iff_toBits (toBits_le_infinityWord hm) hq,
    lt_iff_toBits hq (toBits_le_infinityWord hm), not_lt]

/-- The chord of a finite number is below another chord as the number is. -/
lemma ofLen2_lt_iff {q : Float} {m : Chord} (hq : q.toBits.toNat < infinityWord) (hm : zero ≤ m) :
    ofLen2 q < m ↔ q < m.len2 := by
  have hbits := toNat_toBits_ofLen2 hq.le
  have hle := toBits_le_infinityWord hm
  have hof := toBits_le_infinityWord (zero_le_ofLen2_of_le hq.le)
  rw [← not_le, ← len2_le_iff (zero_le_ofLen2_of_le hq.le), le_iff_toBits hle hof, hbits,
    lt_iff_toBits hq.le hle]
  rcases special_or_distance m with rfl | rfl | ⟨hm, -⟩
  · exact absurd hm (by decide)
  · have hword : infinity.len2.toBits.toNat = infinityWord := by decide
    rw [hword, infinityWord] at *
    omega
  · omega

lemma ofLen2_le_ofLen2 {p q : Float} (hp : p.toBits.toNat ≤ infinityWord)
    (hq : q.toBits.toNat ≤ infinityWord) (h : p.toBits.toNat ≤ q.toBits.toNat) :
    ofLen2 p ≤ ofLen2 q := by
  rw [← len2_le_iff (zero_le_ofLen2_of_le hq),
    le_iff_toBits (toBits_le_infinityWord (zero_le_ofLen2_of_le hp))
      (toBits_le_infinityWord (zero_le_ofLen2_of_le hq)),
    toNat_toBits_ofLen2 hp, toNat_toBits_ofLen2 hq]
  omega

/-- The chord of the smaller number is the smaller chord. -/
lemma ofLen2_minNum {p q : Float} (hp : p.toBits.toNat < infinityWord)
    (hq : q.toBits.toNat < infinityWord) :
    ofLen2 (minNum p q) = min (ofLen2 p) (ofLen2 q) := by
  simp only [minNum]
  rw [isNaN_eq_false hq.le, Bool.or_false]
  by_cases hlt : p < q
  · rw [if_pos (decide_eq_true hlt)]
    rw [lt_iff_toBits hp.le hq.le] at hlt
    exact (min_eq_left (ofLen2_le_ofLen2 hp.le hq.le hlt.le)).symm
  · rw [if_neg (by simpa using hlt)]
    rw [lt_iff_toBits hp.le hq.le] at hlt
    exact (min_eq_right (ofLen2_le_ofLen2 hq.le hp.le (Nat.le_of_not_lt hlt))).symm

end Chord

/-! ### Squares of lengths -/

namespace Point

lemma Within.toBits_norm2_lt {n : ℕ} {p : Point} (hp : p.Within n)
    (h : n * n + n * n + n * n < 2 ^ 53) : p.norm2.toBits.toNat < infinityWord := by
  have hsq : ∀ {c : Float}, Binary64.Within n c → (c * c).toBits.toNat ≤ infinityWord :=
    fun hc => toBits_mul_self_le (ne_notANumber hc.isFinite)
  exact toBits_lt_of_isFinite
    (toBits_add_le (toBits_add_le (hsq hp.x) (hsq hp.y)) (hsq hp.z)) (hp.dot hp h).isFinite

lemma toBits_chord2_lt {p q : Point} (hp : p.isUnit) (hq : q.isUnit) :
    (p.chord2 q).toBits.toNat < infinityWord :=
  ((within_of_isUnit hp).sub (within_of_isUnit hq) (by decide)).toBits_norm2_lt (by decide)

lemma within_circleNormal {p q : Point} (hp : p.isUnit) (hq : q.isUnit) :
    (circleNormal p q).Within 32 :=
  ((within_of_isUnit hq).add (within_of_isUnit hp) (by decide)).cross
    ((within_of_isUnit hq).sub (within_of_isUnit hp) (by decide)) (by decide)

end Point

/-! ### The interior of an edge -/

namespace Edge

/-- The square of the length of the normal of the plane of an edge. -/
def normal2 (e : Edge) : Float := (Point.circleNormal e.start e.stop).norm2

/-- The square of the height of a point above the plane of an edge, times that of the normal. -/
def height2 (e : Edge) (x : Point) : Float :=
  x.dot (Point.circleNormal e.start e.stop) * x.dot (Point.circleNormal e.start e.stop)

/-- The direction across the edge at a point. -/
def across (e : Edge) (x : Point) : Point := (Point.circleNormal e.start e.stop).cross x

/-- How far the foot of the height lies inside the sphere. -/
def inward (e : Edge) (x : Point) : Float := 1.0 - ((e.across x).norm2 / e.normal2).sqrt

/-- The square of the distance from a point to the great circle of an edge. -/
def circleLen2 (e : Edge) (x : Point) : Float :=
  e.height2 x / e.normal2 + e.inward x * e.inward x

/-- The nearest point of the great circle is not seen to lie inside the edge.  No limit enters. -/
def Outside (e : Edge) (x : Point) (toStart toStop : Float) : Prop :=
  maxNum toStart toStop ≥ minNum toStart toStop + e.start.chord2 e.stop ∨ e.normal2 == 0.0 ∨
    e.start.dot (e.across x) ≥ 0.0 ∨ e.stop.dot (e.across x) ≤ 0.0

variable {e : Edge} {x : Point} {toStart toStop : Float} {m : Chord}

lemma interiorLen2?_of_outside (h : e.Outside x toStart toStop) :
    e.interiorLen2? x toStart toStop m = none := by
  unfold interiorLen2?
  dsimp only
  rcases h with h | h | h | h
  · rw [if_pos h]
  · have h : (Point.circleNormal e.start e.stop).norm2 == 0.0 := h
    rw [if_pos h, ite_self]
  · have h : e.start.dot ((Point.circleNormal e.start e.stop).cross x) ≥ 0.0 := h
    rw [decide_eq_true h, Bool.true_or, if_pos rfl, ite_self, ite_self, ite_self]
  · have h : e.stop.dot ((Point.circleNormal e.start e.stop).cross x) ≤ 0.0 := h
    rw [decide_eq_true h, Bool.or_true, if_pos rfl, ite_self, ite_self, ite_self]

lemma interiorLen2?_of_not_outside (h : ¬ e.Outside x toStart toStop) :
    e.interiorLen2? x toStart toStop m =
      if e.height2 x > e.normal2 * m.len2 then none
      else if e.circleLen2 x ≥ m.len2 then none else some (e.circleLen2 x) := by
  simp only [Outside, not_or] at h
  obtain ⟨hends, hnormal, hstart, hstop⟩ := h
  have hnormal : ¬ (Point.circleNormal e.start e.stop).norm2 == 0.0 := hnormal
  have hstart : ¬ e.start.dot ((Point.circleNormal e.start e.stop).cross x) ≥ 0.0 := hstart
  have hstop : ¬ e.stop.dot ((Point.circleNormal e.start e.stop).cross x) ≤ 0.0 := hstop
  unfold interiorLen2?
  dsimp only
  rw [if_neg hends, if_neg hnormal, decide_eq_false hstart, decide_eq_false hstop, Bool.or_false,
    if_neg Bool.false_ne_true]
  rfl

/-! ### Between points of unit length -/

lemma toBits_normal2_lt (hstart : e.start.isUnit) (hstop : e.stop.isUnit) :
    e.normal2.toBits.toNat < infinityWord :=
  (Point.within_circleNormal hstart hstop).toBits_norm2_lt (by decide)

section Unit

variable (hx : x.isUnit) (hstart : e.start.isUnit) (hstop : e.stop.isUnit)
include hx hstart hstop

lemma within_height : Binary64.Within 192 (x.dot (Point.circleNormal e.start e.stop)) :=
  (Point.within_of_isUnit hx).dot (Point.within_circleNormal hstart hstop) (by decide)

lemma toBits_height2_lt : (e.height2 x).toBits.toNat < infinityWord := by
  have hheight := within_height hx hstart hstop
  exact toBits_lt_of_isFinite (toBits_mul_self_le (ne_notANumber hheight.isFinite))
    (hheight.mul hheight (by decide)).isFinite

lemma toBits_across_lt : (e.across x).norm2.toBits.toNat < infinityWord :=
  ((Point.within_circleNormal hstart hstop).cross (Point.within_of_isUnit hx)
    (by decide)).toBits_norm2_lt (by decide)

variable (hne : ¬ e.normal2 == 0.0)
include hne

lemma toBits_inward_le : (e.inward x * e.inward x).toBits.toNat ≤ infinityWord :=
  toBits_mul_self_le (sub_ne_notANumber (by decide) (toBits_sqrt_le (toBits_div_le
    (toBits_across_lt hx hstart hstop) (toBits_normal2_lt hstart hstop) hne)))

lemma toBits_height2_div_le : (e.height2 x / e.normal2).toBits.toNat ≤ infinityWord :=
  toBits_div_le (toBits_height2_lt hx hstart hstop) (toBits_normal2_lt hstart hstop) hne

/-- The distance to the great circle is a number, though it may be infinite. -/
lemma toBits_circleLen2_le : (e.circleLen2 x).toBits.toNat ≤ infinityWord :=
  toBits_add_le (toBits_height2_div_le hx hstart hstop hne) (toBits_inward_le hx hstart hstop hne)

/-- **The early exit is harmless.**  Where the plane of the edge is farther away than the limit,
the computed distance to the great circle is not below it either. -/
lemma le_circleLen2 (hm : Chord.zero ≤ m) (h : e.height2 x > e.normal2 * m.len2) :
    m.len2 ≤ e.circleLen2 x := by
  have hword := Chord.toBits_le_infinityWord hm
  rw [le_iff_toBits hword (toBits_circleLen2_le hx hstart hstop hne)]
  calc m.len2.toBits.toNat ≤ (e.height2 x / e.normal2).toBits.toNat :=
        toBits_le_div_of_mul_lt (toBits_height2_lt hx hstart hstop)
          (toBits_normal2_lt hstart hstop) hne hword h
    _ ≤ (e.circleLen2 x).toBits.toNat :=
        le_add (toBits_height2_div_le hx hstart hstop hne) (toBits_inward_le hx hstart hstop hne)

end Unit

/-- A limit hides the interior distances that are not below it, and no others. -/
lemma interiorLen2?_eq_filter (hx : x.isUnit) (hstart : e.start.isUnit) (hstop : e.stop.isUnit)
    (hm : Chord.zero ≤ m) :
    e.interiorLen2? x toStart toStop m =
      (e.interiorLen2? x toStart toStop Chord.infinity).filter fun len2 => len2 < m.len2 := by
  by_cases hout : e.Outside x toStart toStop
  · rw [interiorLen2?_of_outside hout, interiorLen2?_of_outside hout]
    rfl
  · have hne : ¬ e.normal2 == 0.0 := fun h => hout (Or.inr (Or.inl h))
    have hcircle := toBits_circleLen2_le hx hstart hstop hne
    have hlimit : ∀ {m : Chord}, Chord.zero ≤ m → e.interiorLen2? x toStart toStop m =
        if e.circleLen2 x ≥ m.len2 then none else some (e.circleLen2 x) := by
      intro m hm
      rw [interiorLen2?_of_not_outside hout]
      by_cases hplane : e.height2 x > e.normal2 * m.len2
      · rw [if_pos hplane, if_pos (le_circleLen2 hx hstart hstop hne hm hplane)]
      · rw [if_neg hplane]
    rw [hlimit hm, hlimit (Chord.le_infinity _)]
    by_cases hinf : e.circleLen2 x ≥ Chord.infinity.len2
    · have hge : e.circleLen2 x ≥ m.len2 := by
        rw [ge_iff_le, le_iff_toBits (by decide) hcircle] at hinf
        rw [ge_iff_le, le_iff_toBits (Chord.toBits_le_infinityWord hm) hcircle]
        exact (Chord.toBits_le_infinityWord hm).trans hinf
      rw [if_pos hinf, if_pos hge]
      rfl
    · rw [if_neg hinf]
      have hiff := Chord.ge_iff_not_lt hcircle hm
      by_cases hlt : e.circleLen2 x < m.len2
      · rw [if_neg fun hge => hiff.1 hge hlt, Option.filter_some, if_pos (by simpa using hlt)]
      · rw [if_pos (hiff.2 hlt), Option.filter_some, if_neg (by simpa using hlt)]

/-! ### The nearer end -/

/-- The distance to the interior of an edge, where the nearest point is seen to lie there. -/
def interior? (e : Edge) (x : Point) : Option Chord :=
  (e.interiorLen2? x (x.chord2 e.start) (x.chord2 e.stop) Chord.infinity).map Chord.ofLen2

/-- The distance to the nearer end. -/
def nearerEnd (e : Edge) (x : Point) : Chord :=
  min (Chord.between x e.start) (Chord.between x e.stop)

lemma toBits_minNum_lt {p q : Float} (hp : p.toBits.toNat < infinityWord)
    (hq : q.toBits.toNat < infinityWord) : (minNum p q).toBits.toNat < infinityWord := by
  simp only [minNum]
  split
  · exact hp
  · exact hq

lemma closer_of_len2 {q : Float} (hq : q.toBits.toNat < infinityWord) (hm : Chord.zero ≤ m) :
    (if q ≥ m.len2 then none else some (Chord.ofLen2 q)) = Closer.ofChord (Chord.ofLen2 q) m := by
  have hge : q ≥ m.len2 ↔ ¬ Chord.ofLen2 q < m := by
    rw [Chord.ofLen2_lt_iff hq hm, Chord.ge_iff_not_lt hq.le hm]
  rw [Closer.ofChord]
  by_cases h : Chord.ofLen2 q < m
  · rw [if_pos h, if_neg (mt hge.1 (not_not.2 h))]
  · rw [if_neg h, if_pos (hge.2 h)]

lemma nearerEnd_lt_infinity : e.nearerEnd x < Chord.infinity :=
  min_lt_of_left_lt (Chord.ofLen2_lt_infinity _)

lemma lt_infinity_of_mem_interior? {d : Chord} (h : d ∈ e.interior? x) : d < Chord.infinity := by
  obtain ⟨q, -, rfl⟩ := Option.map_eq_some_iff.1 h
  exact Chord.ofLen2_lt_infinity q

section Unit

variable (hx : x.isUnit) (hstart : e.start.isUnit) (hstop : e.stop.isUnit)
include hx hstart hstop

lemma toBits_lt_of_interiorLen2? {q : Float}
    (h : e.interiorLen2? x toStart toStop Chord.infinity = some q) :
    q.toBits.toNat < infinityWord := by
  by_cases hout : e.Outside x toStart toStop
  · rw [interiorLen2?_of_outside hout] at h
    cases h
  · have hne : ¬ e.normal2 == 0.0 := fun h => hout (Or.inr (Or.inl h))
    have hcircle := toBits_circleLen2_le hx hstart hstop hne
    rw [interiorLen2?_of_not_outside hout] at h
    split at h
    · cases h
    · split at h
      · cases h
      · rename_i hge
        rw [ge_iff_le, le_iff_toBits (by decide) hcircle] at hge
        rw [← Option.some.inj h]
        exact not_le.1 hge

/-- What is found against a limit: the distance to the interior, or else that to the nearer end,
the first of them that is below the limit. -/
lemma closerPoint?_eq (hm : Chord.zero ≤ m) :
    e.closerPoint? x m =
      ((e.interior? x).bind fun d => Closer.ofChord d m).or (Closer.ofChord (e.nearerEnd x) m) := by
  have htoStart := Point.toBits_chord2_lt hx hstart
  have htoStop := Point.toBits_chord2_lt hx hstop
  have hnearer := toBits_minNum_lt htoStart htoStop
  simp only [closerPoint?, interior?, nearerEnd]
  rw [interiorLen2?_eq_filter hx hstart hstop hm]
  show _ = Option.or _ (Closer.ofChord (min (Chord.ofLen2 (x.chord2 e.start))
    (Chord.ofLen2 (x.chord2 e.stop))) m)
  rw [← Chord.ofLen2_minNum htoStart htoStop, ← closer_of_len2 hnearer hm]
  cases h : e.interiorLen2? x (x.chord2 e.start) (x.chord2 e.stop) Chord.infinity with
  | none => rfl
  | some q =>
    have hq := toBits_lt_of_interiorLen2? hx hstart hstop h
    rw [Option.map_some, Option.bind_some, Closer.ofChord, Option.filter_some]
    by_cases hlt : q < m.len2
    · rw [if_pos (decide_eq_true hlt), if_pos ((Chord.ofLen2_lt_iff hq hm).2 hlt)]
      rfl
    · rw [if_neg (by simpa using hlt), if_neg (mt (Chord.ofLen2_lt_iff hq hm).1 hlt)]
      rfl

lemma distance_eq : e.distance x = (e.interior? x).getD (e.nearerEnd x) := by
  have hnearer := nearerEnd_lt_infinity (e := e) (x := x)
  rw [distance, Closer.distance, closerPoint?_eq hx hstart hstop (Chord.le_infinity _)]
  cases h : e.interior? x with
  | none =>
    rw [Option.bind_none, Option.none_or, Closer.ofChord, if_pos hnearer]
    rfl
  | some d =>
    have hd := lt_infinity_of_mem_interior? h
    rw [Option.bind_some, Closer.ofChord, if_pos hd]
    rfl

/-- **The limit and the distance to an edge.**  Against a limit from zero on, what is found is the
distance to the interior if that is below the limit, and else the distance to the nearer end if that
is below it.  So the distance does not depend on the limit exactly if the interior, where it is
measured at all, is measured to be no farther away than the nearer end. -/
theorem closerPoint?_limit :
    (∀ m, Chord.zero ≤ m → e.closerPoint? x m =
      ((e.interior? x).bind fun d => Closer.ofChord d m).or
        (Closer.ofChord (e.nearerEnd x) m)) ∧
    ((∀ m, Chord.zero ≤ m → e.closerPoint? x m = Closer.ofChord (e.distance x) m) ↔
      ∀ d ∈ e.interior? x, d ≤ e.nearerEnd x) := by
  have heq := fun m (hm : Chord.zero ≤ m) => closerPoint?_eq hx hstart hstop hm
  refine ⟨heq, fun h d hd => ?_, fun h m hm => ?_⟩
  · by_contra hlt
    rw [not_le] at hlt
    have hzero : Chord.zero ≤ d := by
      obtain ⟨q, hq, rfl⟩ := Option.map_eq_some_iff.1 hd
      exact Chord.zero_le_ofLen2 (interiorLen2?_not_neg hq)
    have hlimit := h d hzero
    rw [heq d hzero, distance_eq hx hstart hstop, Option.mem_def.1 hd, Option.bind_some,
      Option.getD_some, Closer.ofChord, Closer.ofChord, if_neg (lt_irrefl d), if_pos hlt] at hlimit
    cases hlimit
  · rw [heq m hm, distance_eq hx hstart hstop]
    cases hi : e.interior? x with
    | none => rfl
    | some d =>
      have hle := h d hi
      rw [Option.bind_some, Option.getD_some]
      by_cases hlt : d < m
      · rw [Closer.ofChord, if_pos hlt, Option.some_or]
      · rw [Closer.ofChord, if_neg hlt, Option.none_or, Closer.ofChord,
          if_neg fun h => hlt (hle.trans_lt h)]

end Unit

/-- A quarter of the equator. -/
def equatorQuarter : Edge := ⟨⟨1.0, 0.0, 0.0⟩, ⟨0.0, 1.0, 0.0⟩⟩

/-- The distance from the north pole to the equator does not depend on the limit. -/
theorem closerPoint?_limit_north :
    Point.north.isUnit ∧ equatorQuarter.start.isUnit ∧ equatorQuarter.stop.isUnit ∧
      ∀ m, Chord.zero ≤ m → equatorQuarter.closerPoint? Point.north m =
        Closer.ofChord (equatorQuarter.distance Point.north) m := by
  have hnorth : Point.north.isUnit := by decide +kernel
  have hstart : equatorQuarter.start.isUnit := by decide +kernel
  have hstop : equatorQuarter.stop.isUnit := by decide +kernel
  refine ⟨hnorth, hstart, hstop, (closerPoint?_limit hnorth hstart hstop).2.2 ?_⟩
  decide +kernel

/-- A point next to the end of an edge.  From the start it is measured to the interior, which is
rounded to be too far away; against a limit that is already below that distance, it is found to be
still closer to the end. -/
theorem exists_closerPoint?_below_distance :
    ∃ (e : Edge) (x : Point) (m : Chord), x.isUnit ∧ e.start.isUnit ∧ e.stop.isUnit ∧
      Chord.zero ≤ m ∧ m ≤ e.distance x ∧ (e.closerPoint? x m).isSome := by
  refine ⟨⟨⟨1.0000000000004, 0.0, 0.0⟩, ⟨0.0, 1.0, 0.0⟩⟩, ⟨1.0000000000004, 1e-13, 0.0⟩,
    ⟨1e-25, by decide⟩, ?_⟩
  decide +kernel

end Edge

end SphereSearch
