import SphereSearch.Proofs.Number.Value
import SphereSearch.Sphere.Crossing

/-!
# Crossings in general position

On which side of the great circle from `a` to `b` a point `c` lies is the sign of a determinant
(`Point.det`), which is a rational number that can be computed exactly.  Where no three of the
points at hand lie on a great circle and the computed orientations have the right signs
(`Edge.Sharp`), an edge crosses another one as the signs say, and the sides of a triangle are
crossed by an edge an odd number of times exactly if one of its ends lies inside
(`Edge.meets_triangle`).  So a closed chain of edges, in which as many edges begin at each point as
end there, crosses every triangle an even number of times (`Point.meetsOdd_triangle`): the parity of
crossings between two points does not depend on the way (`Point.crossesOdd_eq_meetsOdd`).
-/

namespace SphereSearch

open Binary64

namespace Point

/-! ### Determinants -/

/-- Six times the volume between the centre and three points. -/
def det (a b c : Point) : ℚ :=
  rational a.x * (rational b.y * rational c.z - rational b.z * rational c.y) -
    rational a.y * (rational b.x * rational c.z - rational b.z * rational c.x) +
    rational a.z * (rational b.x * rational c.y - rational b.y * rational c.x)

lemma det_rotate (a b c : Point) : det b c a = det a b c := by
  simp only [det]
  ring

lemma det_swap (a b c : Point) : det b a c = -det a b c := by
  simp only [det]
  ring

/-- Points that are equal as numbers span nothing. -/
lemma det_eq_zero_of_same {a b : Point} (h : a.same b) (c : Point) :
    det a b c = 0 ∧ det a c b = 0 := by
  simp only [same, Bool.and_eq_true] at h
  obtain ⟨⟨hx, hy⟩, hz⟩ := h
  simp only [det]
  rw [rational_eq_of_beq hx, rational_eq_of_beq hy, rational_eq_of_beq hz]
  constructor <;> ring

/-- Whether `c` lies to the left of the great circle from `a` to `b`. -/
def left (a b c : Point) : Bool := 0 < det a b c

lemma left_swap {a b c : Point} (h : det a b c ≠ 0) : left b a c = !left a b c := by
  rw [left, left, det_swap, ← decide_not, decide_eq_decide, neg_pos, not_lt]
  exact ⟨le_of_lt, fun hle => lt_of_le_of_ne hle h⟩

/-! ### Orientation -/

/-- The points do not lie on a great circle, and their computed orientation is right. -/
def Sharp (a b c : Point) : Prop :=
  0 < det a b c ∧ orientation a b c = 1 ∨ det a b c < 0 ∧ orientation a b c = -1

instance (a b c : Point) : Decidable (Sharp a b c) := inferInstanceAs (Decidable (_ ∨ _))

lemma Sharp.det_ne_zero {a b c : Point} (h : Sharp a b c) : det a b c ≠ 0 := by
  rcases h with ⟨h, -⟩ | ⟨h, -⟩
  · exact h.ne'
  · exact h.ne

lemma Sharp.orientation_eq {a b c : Point} (h : Sharp a b c) :
    orientation a b c = if left a b c then 1 else -1 := by
  rcases h with ⟨hdet, h⟩ | ⟨hdet, h⟩
  · rw [h, left, decide_eq_true hdet, if_pos rfl]
  · rw [h, left, decide_eq_false hdet.not_gt, if_neg Bool.false_ne_true]

end Point

open Point

namespace Edge

/-- The ends of each edge are seen on the right side of the other one. -/
structure Sharp (e f : Edge) : Prop where
  start : Point.Sharp e.start e.stop f.start
  stop : Point.Sharp e.start e.stop f.stop
  start' : Point.Sharp f.start f.stop e.start
  stop' : Point.Sharp f.start f.stop e.stop

instance (e f : Edge) : Decidable (e.Sharp f) :=
  decidable_of_iff (Point.Sharp e.start e.stop f.start ∧ Point.Sharp e.start e.stop f.stop ∧
      Point.Sharp f.start f.stop e.start ∧ Point.Sharp f.start f.stop e.stop)
    ⟨fun ⟨h₁, h₂, h₃, h₄⟩ => ⟨h₁, h₂, h₃, h₄⟩, fun ⟨h₁, h₂, h₃, h₄⟩ => ⟨h₁, h₂, h₃, h₄⟩⟩

/-- Whether the ends of each edge lie on different sides of the other one, so that the edges meet on
this side of the sphere. -/
def meets (e f : Edge) : Bool :=
  left e.start e.stop f.start != left e.start e.stop f.stop &&
    left f.start f.stop e.start != left f.start f.stop e.stop &&
    left e.start e.stop f.stop == left f.start f.stop e.start

lemma same_eq_false {a b : Point} {d : ℚ} (h : a.same b → d = 0) (hd : d ≠ 0) :
    a.same b = false := by
  rw [← Bool.not_eq_true]
  exact fun hsame => hd (h hsame)

/-- In general position, edges cross where they meet. -/
lemma crosses_eq_meets {e f : Edge} (h : e.Sharp f) : e.crosses f = e.meets f := by
  have hstart := h.start.det_ne_zero
  have hstop := h.stop.det_ne_zero
  have hac : e.start.same f.start = false :=
    same_eq_false (fun hs => (det_eq_zero_of_same hs _).2) hstart
  have had : e.start.same f.stop = false :=
    same_eq_false (fun hs => (det_eq_zero_of_same hs _).2) hstop
  have hbc : e.stop.same f.start = false :=
    same_eq_false (fun hs => (det_rotate _ _ _).symm.trans (det_eq_zero_of_same hs _).1) hstart
  have hbd : e.stop.same f.stop = false :=
    same_eq_false (fun hs => (det_rotate _ _ _).symm.trans (det_eq_zero_of_same hs _).1) hstop
  have hab : e.start.same e.stop = false :=
    same_eq_false (fun hs => (det_eq_zero_of_same hs _).1) hstart
  have hcd : f.start.same f.stop = false :=
    same_eq_false (fun hs => (det_eq_zero_of_same hs _).1) h.start'.det_ne_zero
  simp only [crosses, crossing, meets, hac, had, hbc, hbd, hab, hcd, h.start.orientation_eq,
    h.stop.orientation_eq, h.start'.orientation_eq, h.stop'.orientation_eq]
  generalize e.flatCrossing f = c
  cases left e.start e.stop f.start <;> cases left e.start e.stop f.stop <;>
    cases left f.start f.stop e.start <;> cases left f.start f.stop e.stop <;> rfl

/-! ### Triangles -/

/-- Three numbers that add up to zero do not all have the same sign. -/
lemma signs_of_sum_eq_zero {p q r : ℚ} (h : p + q + r = 0) (hp : p ≠ 0) :
    ¬ (decide (0 < p) = decide (0 < q) ∧ decide (0 < q) = decide (0 < r)) := by
  rintro ⟨hpq, hqr⟩
  rw [decide_eq_decide] at hpq hqr
  rcases hp.lt_or_gt with hlt | hgt
  · have hq : ¬ 0 < q := fun hq => hlt.not_gt (hpq.2 hq)
    have hr : ¬ 0 < r := fun hr => hq (hqr.2 hr)
    linarith
  · have hq := hpq.1 hgt
    have hr := hqr.1 hq
    linarith

lemma sign_mul {p q : ℚ} (hp : p ≠ 0) (hq : q ≠ 0) :
    decide (0 < p * q) = (decide (0 < p) == decide (0 < q)) := by
  rcases hp.lt_or_gt with hp | hp
  · rcases hq.lt_or_gt with hq | hq
    · rw [decide_eq_true (mul_pos_of_neg_of_neg hp hq), decide_eq_false hp.not_gt,
        decide_eq_false hq.not_gt]
      rfl
    · rw [decide_eq_false (mul_neg_of_neg_of_pos hp hq).not_gt, decide_eq_false hp.not_gt,
        decide_eq_true hq]
      rfl
  · rcases hq.lt_or_gt with hq | hq
    · rw [decide_eq_false (mul_neg_of_pos_of_neg hp hq).not_gt, decide_eq_true hp,
        decide_eq_false hq.not_gt]
      rfl
    · rw [decide_eq_true (mul_pos hp hq), decide_eq_true hp, decide_eq_true hq]
      rfl

/-- The sides of a triangle that an edge meets, counted by signs: `a` and `b` are the sides of its
ends, `u`, `v` and `w` those of the corners, and `t` is the orientation of the triangle. -/
lemma meets_of_signs (a₁ a₂ a₃ b₁ b₂ b₃ u v w t : Bool)
    (hc : ¬ ((a₁ == w) = (a₃ == v) ∧ (a₃ == v) = (a₂ == u)))
    (hd : ¬ ((b₁ == w) = (b₃ == v) ∧ (b₃ == v) = (b₂ == u)))
    (hu : ¬ ((t == u) = (a₁ == b₃) ∧ (a₁ == b₃) = !(b₁ == a₃)))
    (hv : ¬ ((t == v) = (a₂ == b₁) ∧ (a₂ == b₁) = !(b₂ == a₁))) :
    ((a₁ != b₁ && u != v && b₁ == u) ^^ (a₂ != b₂ && v != w && b₂ == v) ^^
      (a₃ != b₃ && w != u && b₃ == w)) =
    ((a₁ == t && a₂ == t && a₃ == t) ^^ (b₁ == t && b₂ == t && b₃ == t)) := by
  revert a₁ a₂ a₃ b₁ b₂ b₃ u v w t
  decide

/-- Whether a point lies inside a triangle. -/
def inside (u v w x : Point) : Bool :=
  left u v x == left u v w && left v w x == left u v w && left w u x == left u v w

/-- No three of the corners of a triangle and the ends of an edge lie on a great circle. -/
structure Apart (u v w : Point) (e : Edge) : Prop where
  uvw : det u v w ≠ 0
  uvc : det u v e.start ≠ 0
  vwc : det v w e.start ≠ 0
  wuc : det w u e.start ≠ 0
  uvd : det u v e.stop ≠ 0
  vwd : det v w e.stop ≠ 0
  wud : det w u e.stop ≠ 0
  cdu : det e.start e.stop u ≠ 0
  cdv : det e.start e.stop v ≠ 0
  cdw : det e.start e.stop w ≠ 0

instance (u v w : Point) (e : Edge) : Decidable (Apart u v w e) :=
  decidable_of_iff (det u v w ≠ 0 ∧ det u v e.start ≠ 0 ∧ det v w e.start ≠ 0 ∧
      det w u e.start ≠ 0 ∧ det u v e.stop ≠ 0 ∧ det v w e.stop ≠ 0 ∧ det w u e.stop ≠ 0 ∧
      det e.start e.stop u ≠ 0 ∧ det e.start e.stop v ≠ 0 ∧ det e.start e.stop w ≠ 0)
    ⟨fun ⟨h, h₁, h₂, h₃, h₄, h₅, h₆, h₇, h₈, h₉⟩ => ⟨h, h₁, h₂, h₃, h₄, h₅, h₆, h₇, h₈, h₉⟩,
      fun ⟨h, h₁, h₂, h₃, h₄, h₅, h₆, h₇, h₈, h₉⟩ => ⟨h, h₁, h₂, h₃, h₄, h₅, h₆, h₇, h₈, h₉⟩⟩

/-- **Crossing a triangle.**  An edge meets the sides of a triangle an odd number of times exactly
if one of its ends lies inside. -/
theorem meets_triangle {u v w : Point} {e : Edge} (h : Apart u v w e) :
    (meets ⟨u, v⟩ e ^^ meets ⟨v, w⟩ e ^^ meets ⟨w, u⟩ e) =
      (inside u v w e.start ^^ inside u v w e.stop) := by
  have hc : det u v e.start * det e.start e.stop w + det w u e.start * det e.start e.stop v +
      det v w e.start * det e.start e.stop u = 0 := by
    simp only [det]
    ring
  have hd : det u v e.stop * det e.start e.stop w + det w u e.stop * det e.start e.stop v +
      det v w e.stop * det e.start e.stop u = 0 := by
    simp only [det]
    ring
  have hu : det u v w * det e.start e.stop u + det u v e.start * det w u e.stop +
      -(det u v e.stop * det w u e.start) = 0 := by
    simp only [det]
    ring
  have hv : det u v w * det e.start e.stop v + det v w e.start * det u v e.stop +
      -(det v w e.stop * det u v e.start) = 0 := by
    simp only [det]
    ring
  have hneg : ∀ {p : ℚ}, p ≠ 0 → decide (0 < -p) = !decide (0 < p) := by
    intro p hp
    rw [← decide_not, decide_eq_decide, neg_pos, not_lt]
    exact ⟨le_of_lt, fun hle => lt_of_le_of_ne hle hp⟩
  have sc := signs_of_sum_eq_zero hc (mul_ne_zero h.uvc h.cdw)
  have sd := signs_of_sum_eq_zero hd (mul_ne_zero h.uvd h.cdw)
  have su := signs_of_sum_eq_zero hu (mul_ne_zero h.uvw h.cdu)
  have sv := signs_of_sum_eq_zero hv (mul_ne_zero h.uvw h.cdv)
  rw [sign_mul h.uvc h.cdw, sign_mul h.wuc h.cdv, sign_mul h.vwc h.cdu] at sc
  rw [sign_mul h.uvd h.cdw, sign_mul h.wud h.cdv, sign_mul h.vwd h.cdu] at sd
  rw [hneg (mul_ne_zero h.uvd h.wuc), sign_mul h.uvw h.cdu, sign_mul h.uvc h.wud,
    sign_mul h.uvd h.wuc] at su
  rw [hneg (mul_ne_zero h.vwd h.uvc), sign_mul h.uvw h.cdv, sign_mul h.vwc h.uvd,
    sign_mul h.vwd h.uvc] at sv
  exact meets_of_signs _ _ _ _ _ _ _ _ _ _ sc sd su sv

end Edge

/-! ### Parity over a list -/

section Parity

variable {α : Type}

/-- Whether a test succeeds an odd number of times. -/
def parity (test : α → Bool) (l : List α) : Bool := l.foldl (fun odd a => odd ^^ test a) false

lemma foldl_xor (test : α → Bool) (l : List α) (odd : Bool) :
    l.foldl (fun odd a => odd ^^ test a) odd = (odd ^^ parity test l) := by
  induction l generalizing odd with
  | nil => exact (Bool.xor_false odd).symm
  | cons a l ih =>
    rw [parity, List.foldl_cons, List.foldl_cons, ih, ih, Bool.false_xor, Bool.xor_assoc]

lemma parity_cons (test : α → Bool) (a : α) (l : List α) :
    parity test (a :: l) = (test a ^^ parity test l) := by
  rw [parity, List.foldl_cons, Bool.false_xor, foldl_xor]

lemma parity_congr {test test' : α → Bool} {l : List α} (h : ∀ a ∈ l, test a = test' a) :
    parity test l = parity test' l := by
  induction l with
  | nil => rfl
  | cons a l ih =>
    rw [parity_cons, parity_cons, h a List.mem_cons_self,
      ih fun b hb => h b (List.mem_cons_of_mem a hb)]

lemma parity_xor (test test' : α → Bool) (l : List α) :
    parity (fun a => test a ^^ test' a) l = (parity test l ^^ parity test' l) := by
  induction l with
  | nil => rfl
  | cons a l ih =>
    rw [parity_cons, parity_cons, parity_cons, ih, Bool.xor_assoc, Bool.xor_assoc,
      Bool.xor_left_comm (test' a)]

lemma parity_perm (test : α → Bool) {l l' : List α} (h : l.Perm l') :
    parity test l = parity test l' := by
  induction h with
  | nil => rfl
  | cons a _ ih => rw [parity_cons, parity_cons, ih]
  | swap a b l => rw [parity_cons, parity_cons, parity_cons, parity_cons, Bool.xor_left_comm]
  | trans _ _ ih ih' => exact ih.trans ih'

lemma parity_map {β : Type} (test : β → Bool) (f : α → β) (l : List α) :
    parity test (l.map f) = parity (fun a => test (f a)) l := by
  rw [parity, parity, List.foldl_map]

end Parity

/-! ### Chains of edges -/

/-- As many edges begin at each point as end there. -/
def Closed (edges : List Edge) : Prop := (edges.map Edge.start).Perm (edges.map Edge.stop)

/-- Over a closed chain, what is counted at both ends of every edge is counted an even number of
times. -/
lemma Closed.parity_ends {edges : List Edge} (h : Closed edges) (test : Point → Bool) :
    parity (fun e => test e.start ^^ test e.stop) edges = false := by
  have hstart : parity (fun e => test e.start) edges = parity test (edges.map Edge.start) :=
    (parity_map test Edge.start edges).symm
  have hstop : parity (fun e => test e.stop) edges = parity test (edges.map Edge.stop) :=
    (parity_map test Edge.stop edges).symm
  rw [parity_xor, hstart, hstop, parity_perm test h, Bool.xor_self]

namespace Point

/-- Whether the edge between two points meets the given edges an odd number of times. -/
def meetsOdd (p q : Point) (edges : List Edge) : Bool := parity (Edge.meets ⟨p, q⟩) edges

/-- A closed chain meets the sides of a triangle an even number of times. -/
lemma meetsOdd_triangle {u v w : Point} {edges : List Edge} (hclosed : Closed edges)
    (h : ∀ e ∈ edges, Edge.Apart u v w e) :
    (meetsOdd u v edges ^^ meetsOdd v w edges ^^ meetsOdd w u edges) = false := by
  rw [meetsOdd, meetsOdd, meetsOdd, ← parity_xor, ← parity_xor,
    parity_congr fun e he => Edge.meets_triangle (h e he)]
  exact hclosed.parity_ends (Edge.inside u v w)

lemma meets_reverse {p q : Point} {e : Edge} (hstart : det p q e.start ≠ 0)
    (hstop : det p q e.stop ≠ 0) : Edge.meets ⟨q, p⟩ e = Edge.meets ⟨p, q⟩ e := by
  simp only [Edge.meets]
  rw [left_swap hstart, left_swap hstop]
  cases left p q e.start <;> cases left p q e.stop <;> cases left e.start e.stop p <;>
    cases left e.start e.stop q <;> rfl

lemma meetsOdd_comm {p q : Point} {edges : List Edge}
    (h : ∀ e ∈ edges, det p q e.start ≠ 0 ∧ det p q e.stop ≠ 0) :
    meetsOdd q p edges = meetsOdd p q edges :=
  parity_congr fun e he => meets_reverse (h e he).1 (h e he).2

/-! ### Ways between points -/

/-- The crossings of the way from `p` to `q` are computed right: its parts are sharp to the edges,
and where it takes a turn, the three points have no great circle in common with any two of the ends
of an edge. -/
structure Decided (p q : Point) (edges : List Edge) : Prop where
  sharp : ∀ leg ∈ p.path q, ∀ e ∈ edges, leg.Sharp e
  apart : ∀ turn, p.path q = [⟨p, turn⟩, ⟨turn, q⟩] → ∀ e ∈ edges, Edge.Apart p turn q e

/-- A way without a turn only has to be sharp. -/
lemma Decided.of_direct {p q : Point} {edges : List Edge} (hpath : p.path q = [⟨p, q⟩])
    (h : ∀ e ∈ edges, Edge.Sharp ⟨p, q⟩ e) : p.Decided q edges := by
  refine ⟨fun leg hleg => ?_, fun turn hturn => ?_⟩
  · rw [hpath] at hleg
    rw [List.mem_singleton.1 hleg]
    exact h
  · rw [hpath] at hturn
    exact absurd (congrArg List.length hturn) (show (1 : ℕ) ≠ 2 by decide)

lemma path_cases (p q : Point) :
    p.path q = [⟨p, q⟩] ∨ ∃ turn, p.path q = [⟨p, turn⟩, ⟨turn, q⟩] := by
  simp only [path]
  split
  · exact Or.inl rfl
  · exact Or.inr ⟨_, rfl⟩

lemma crossedBy_eq {p q : Point} {edges : List Edge} (h : Decided p q edges) {e : Edge}
    (he : e ∈ edges) : e.crossedBy (p.path q) = parity (fun leg => leg.meets e) (p.path q) :=
  parity_congr fun leg hleg => Edge.crosses_eq_meets (h.sharp leg hleg e he)

/-- **Ways do not matter.**  In general position, the way from one point to another crosses a closed
chain as often, modulo two, as the edge between them meets it. -/
theorem crossesOdd_eq_meetsOdd {p q : Point} {edges : List Edge} (hclosed : Closed edges)
    (h : Decided p q edges) : p.crossesOdd q edges = p.meetsOdd q edges := by
  have hlegs : p.crossesOdd q edges =
      parity (fun e => parity (fun leg => leg.meets e) (p.path q)) edges :=
    parity_congr fun e he => crossedBy_eq h he
  rw [hlegs]
  rcases path_cases p q with hpath | ⟨turn, hpath⟩
  · rw [hpath]
    exact parity_congr fun e _ => Bool.false_xor _
  · have hapart := h.apart turn hpath
    have hsplit : parity (fun e => parity (fun leg => leg.meets e) (p.path q)) edges =
        (p.meetsOdd turn edges ^^ turn.meetsOdd q edges) := by
      rw [hpath, meetsOdd, meetsOdd, ← parity_xor]
      refine parity_congr fun e _ => ?_
      rw [parity_cons, parity_cons]
      exact congrArg _ (Bool.xor_false _)
    have htriangle := meetsOdd_triangle hclosed hapart
    have hreverse : q.meetsOdd p edges = p.meetsOdd q edges := by
      refine (meetsOdd_comm fun e he => ?_).symm
      exact ⟨(hapart e he).wuc, (hapart e he).wud⟩
    rw [hreverse] at htriangle
    rw [hsplit]
    exact bne_eq_false_iff_eq.1 htriangle

end Point

end SphereSearch
