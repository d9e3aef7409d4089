import SphereSearch.Proofs.Number.Opposite
import SphereSearch.Proofs.Sphere.Parity

/-!
# Crossings do not depend on how they are asked for

The computed orientation of three points changes its sign when the first two are exchanged
(`Point.orientation_swap`): products and sums are rounded the same way in either order, and a change
of sign goes through all of them.  The four orientations that decide on a proper crossing are
therefore permuted and change their signs together when an edge is reversed or the edges are
exchanged (`Edge.crosses_reverse`, `Edge.reverse_crosses`, `Edge.crosses_comm`).  So the parity of
crossings is one of the way and of the collection of edges: neither their order nor their
directions matter, and the way may be walked backwards wherever it takes its turn in the middle
(`Point.crossesOdd_symmetric`).  No point has to be of unit length, nor even finite.
-/

namespace SphereSearch

open Binary64

namespace Point

/-! ### Vectors -/

lemma dot_comm (p q : Point) : p.dot q = q.dot p := by
  simp only [dot]
  rw [Binary64.mul_comm p.x, Binary64.mul_comm p.y, Binary64.mul_comm p.z]

protected lemma add_comm (p q : Point) : p + q = q + p := by
  show Point.mk (p.x + q.x) (p.y + q.y) (p.z + q.z) = Point.mk (q.x + p.x) (q.y + p.y) (q.z + p.z)
  rw [Binary64.add_comm p.x, Binary64.add_comm p.y, Binary64.add_comm p.z]

lemma same_comm (p q : Point) : p.same q = q.same p := by
  simp only [same]
  rw [Binary64.beq_comm p.x, Binary64.beq_comm p.y, Binary64.beq_comm p.z]

/-- Each coordinate of one vector is opposite to that of the other one. -/
structure Opposite (p q : Point) : Prop where
  x : Binary64.Opposite p.x q.x
  y : Binary64.Opposite p.y q.y
  z : Binary64.Opposite p.z q.z

/-- The vector product changes its sign with the order of its factors. -/
lemma opposite_cross (p q : Point) : (p.cross q).Opposite (q.cross p) := by
  have hcoordinate : ∀ a b c d : Float, Binary64.Opposite (a * b - c * d) (d * c - b * a) := by
    intro a b c d
    rw [Binary64.mul_comm d, Binary64.mul_comm b]
    exact opposite_sub _ _
  exact ⟨hcoordinate _ _ _ _, hcoordinate _ _ _ _, hcoordinate _ _ _ _⟩

lemma Opposite.dot {p q : Point} (h : p.Opposite q) (r : Point) :
    Binary64.Opposite (p.dot r) (q.dot r) :=
  ((h.x.mul r.x).add (h.y.mul r.y)).add (h.z.mul r.z)

/-! ### Orientation -/

/-- Exchanging the first two points turns the orientation round. -/
lemma orientation_swap (a b c : Point) : orientation b a c = -orientation a b c := by
  have hdet : Binary64.Opposite ((a.cross b).dot c) ((b.cross a).dot c) :=
    (opposite_cross a b).dot c
  simp only [orientation]
  generalize (a.cross b).dot c = x at hdet
  generalize (b.cross a).dot c = y at hdet
  by_cases hpos : 0.0 < x
  · have hneg : y < 0.0 := hdet.zero_lt_iff.1 hpos
    have hnot : ¬ 0.0 < y := fun h => not_lt_zero_of_zero_lt h hneg
    rw [if_pos hpos, if_neg hnot, if_pos hneg]
  · have hnot : ¬ y < 0.0 := fun h => hpos (hdet.zero_lt_iff.2 h)
    by_cases hneg : x < 0.0
    · rw [if_neg hpos, if_pos hneg, if_pos (hdet.symm.zero_lt_iff.2 hneg)]
      rfl
    · have hnot' : ¬ 0.0 < y := fun h => hneg (hdet.symm.zero_lt_iff.1 h)
      rw [if_neg hpos, if_neg hneg, if_neg hnot', if_neg hnot]
      rfl

end Point

open Point

namespace Edge

/-! ### Proper crossings -/

/-- The ends of two edges are four different points, as numbers. -/
structure Distinct (e f : Edge) : Prop where
  start_start : e.start.same f.start = false
  start_stop : e.start.same f.stop = false
  stop_start : e.stop.same f.start = false
  stop_stop : e.stop.same f.stop = false
  left : e.start.same e.stop = false
  right : f.start.same f.stop = false

/-- The turns at the corners of the quadrilateral of the ends all go the same way. -/
structure SameTurns (e f : Edge) : Prop where
  ne_zero : orientation e.start e.stop f.stop ≠ 0
  start : -orientation e.start e.stop f.start = orientation e.start e.stop f.stop
  stop : -orientation f.start f.stop e.stop = orientation e.start e.stop f.stop
  start' : orientation f.start f.stop e.start = orientation e.start e.stop f.stop

lemma flatCrossing_ne_proper (e f : Edge) : e.flatCrossing f ≠ .proper := by
  rw [flatCrossing]
  split <;> exact nofun

/-- **Proper crossings** are told by the ends being distinct and the turns being the same. -/
lemma crosses_iff (e f : Edge) : e.crosses f ↔ e.Distinct f ∧ e.SameTurns f := by
  have hflat := e.flatCrossing_ne_proper f
  rw [crosses, decide_eq_true_iff]
  simp only [crossing, Bool.or_eq_true, decide_eq_true_iff, ne_eq]
  constructor
  · intro h
    split_ifs at h with hshared hdegenerate hflat₁ hturn hflat₂ hturn'
    · exact absurd h hflat
    · exact absurd h hflat
    · simp only [not_or, Bool.not_eq_true] at hshared hdegenerate
      obtain ⟨⟨⟨hac, had⟩, hbc⟩, hbd⟩ := hshared
      obtain ⟨hab, hcd⟩ := hdegenerate
      refine ⟨⟨hac, had, hbc, hbd, hab, hcd⟩, ?_, ?_, ?_, ?_⟩ <;> omega
  · rintro ⟨hdistinct, hne, hstart, hstop, hstart'⟩
    rw [hdistinct.start_start, hdistinct.start_stop, hdistinct.stop_start, hdistinct.stop_stop,
      hdistinct.left, hdistinct.right, hstart, hstop, hstart']
    simp only [Bool.false_eq_true, or_self, if_false, hne, not_true]

lemma Distinct.reverse {e f : Edge} (h : e.Distinct f) : e.Distinct f.reverse :=
  ⟨h.start_stop, h.start_start, h.stop_stop, h.stop_start, h.left,
    (same_comm _ _).trans h.right⟩

lemma Distinct.symm {e f : Edge} (h : e.Distinct f) : f.Distinct e :=
  ⟨(same_comm _ _).trans h.start_start, (same_comm _ _).trans h.stop_start,
    (same_comm _ _).trans h.start_stop, (same_comm _ _).trans h.stop_stop, h.right, h.left⟩

lemma SameTurns.reverse {e f : Edge} (h : e.SameTurns f) : e.SameTurns f.reverse := by
  obtain ⟨hne, hstart, hstop, hstart'⟩ := h
  have hswap := orientation_swap f.start f.stop
  refine ⟨?_, ?_, ?_, ?_⟩ <;>
    simp only [Edge.reverse, hswap] <;>
    omega

lemma SameTurns.symm {e f : Edge} (h : e.SameTurns f) : f.SameTurns e := by
  obtain ⟨hne, hstart, hstop, hstart'⟩ := h
  refine ⟨?_, ?_, ?_, ?_⟩ <;> omega

/-- Which edge is asked whether it crosses the other one does not matter. -/
lemma crosses_comm (e f : Edge) : e.crosses f = f.crosses e := by
  rw [Bool.eq_iff_iff, crosses_iff, crosses_iff]
  exact ⟨fun h => ⟨h.1.symm, h.2.symm⟩, fun h => ⟨h.1.symm, h.2.symm⟩⟩

/-- The direction of the other edge does not matter. -/
lemma crosses_reverse (e f : Edge) : e.crosses f.reverse = e.crosses f := by
  rw [Bool.eq_iff_iff, crosses_iff, crosses_iff]
  exact ⟨fun h => ⟨h.1.reverse, h.2.reverse⟩, fun h => ⟨h.1.reverse, h.2.reverse⟩⟩

/-- The direction of the edge itself does not matter. -/
lemma reverse_crosses (e f : Edge) : e.reverse.crosses f = e.crosses f := by
  rw [crosses_comm, crosses_reverse, crosses_comm]

/-- A way crosses an edge as often in either direction of the edge. -/
lemma crossedBy_reverse (e : Edge) (path : List Edge) :
    e.reverse.crossedBy path = e.crossedBy path :=
  parity_congr fun leg _ => crosses_reverse leg e

end Edge

/-! ### The parity of crossings -/

lemma parity_append {α : Type} (test : α → Bool) (l l' : List α) :
    parity test (l ++ l') = (parity test l ^^ parity test l') := by
  rw [parity, List.foldl_append, foldl_xor]
  rfl

namespace Point

/-- Whether the way between two points is the same both ways: it is straight, or it turns in the
middle. -/
def TurnsInMiddle (p q : Point) : Prop := p.dot q ≥ 0.0 ∨ (p + q).norm2 > 1e-20

/-- A way that turns in the middle can be walked backwards. -/
lemma path_swap {p q : Point} (h : p.TurnsInMiddle q) :
    q.path p = ((p.path q).map Edge.reverse).reverse := by
  simp only [path]
  rw [dot_comm q p, Point.add_comm q p]
  by_cases hdot : p.dot q ≥ 0.0
  · rw [if_pos hdot, if_pos hdot]
    rfl
  · have hturn := h.resolve_left hdot
    rw [if_neg hdot, if_neg hdot, if_pos hturn, if_pos hturn]
    rfl

lemma crossesOdd_eq_parity (p q : Point) (edges : List Edge) :
    p.crossesOdd q edges = parity (fun e => e.crossedBy (p.path q)) edges := rfl

lemma crossedBy_swap {p q : Point} (h : p.TurnsInMiddle q) (e : Edge) :
    e.crossedBy (q.path p) = e.crossedBy (p.path q) := by
  rw [path_swap h]
  calc e.crossedBy ((p.path q).map Edge.reverse).reverse
      = parity (fun leg => leg.crosses e) ((p.path q).map Edge.reverse) :=
        parity_perm _ (List.reverse_perm _)
    _ = parity (fun leg => leg.reverse.crosses e) (p.path q) := parity_map _ _ _
    _ = e.crossedBy (p.path q) := parity_congr fun leg _ => leg.reverse_crosses e

/-- Turning some of the edges round does not change the parity. -/
lemma crossesOdd_of_turned {p q : Point} {edges turned : List Edge}
    (h : List.Forall₂ (fun e f => f = e ∨ f = e.reverse) edges turned) :
    p.crossesOdd q turned = p.crossesOdd q edges := by
  rw [crossesOdd_eq_parity, crossesOdd_eq_parity]
  induction h with
  | nil => rfl
  | cons hturned _ ih =>
    rw [parity_cons, parity_cons, ih]
    rcases hturned with rfl | rfl
    · rfl
    · rw [Edge.crossedBy_reverse]

/-- **Symmetry of crossings.**  Whether two edges cross properly depends neither on their directions
nor on their order.  So the parity of crossings of a way is the same in whatever order and direction
the edges come, it is that of the crossings of any two parts together, and it is the same both ways
wherever the way is straight or turns in the middle. -/
theorem crossesOdd_symmetric :
    (∀ e f : Edge,
      (e.reverse.crossing f = .proper ↔ e.crossing f = .proper) ∧
      (e.crossing f.reverse = .proper ↔ e.crossing f = .proper) ∧
      (f.crossing e = .proper ↔ e.crossing f = .proper)) ∧
    ∀ (p q : Point) (edges : List Edge),
      (∀ permuted, edges.Perm permuted → p.crossesOdd q permuted = p.crossesOdd q edges) ∧
      (∀ turned, List.Forall₂ (fun e f => f = e ∨ f = e.reverse) edges turned →
        p.crossesOdd q turned = p.crossesOdd q edges) ∧
      (∀ front back, edges = front ++ back →
        p.crossesOdd q edges = (p.crossesOdd q front ^^ p.crossesOdd q back)) ∧
      (p.dot q ≥ 0.0 ∨ (p + q).norm2 > 1e-20 → q.crossesOdd p edges = p.crossesOdd q edges) := by
  have hproper : ∀ {e f e' f' : Edge}, e.crosses f = e'.crosses f' →
      (e.crossing f = .proper ↔ e'.crossing f' = .proper) := by
    intro e f e' f' h
    rwa [Edge.crosses, Edge.crosses, decide_eq_decide] at h
  refine ⟨fun e f => ⟨hproper (e.reverse_crosses f), hproper (e.crosses_reverse f),
    hproper (f.crosses_comm e)⟩, fun p q edges => ⟨?_, ?_, ?_, ?_⟩⟩
  · exact fun permuted h => (parity_perm _ h).symm
  · exact fun turned h => crossesOdd_of_turned h
  · rintro front back rfl
    exact parity_append _ front back
  · exact fun h => parity_congr fun e _ => crossedBy_swap h e

/-- A point inside the triangle between the three positive axes. -/
def inOctant : Point := ⟨0.48, 0.6, 0.64⟩

/-- A point more than a right angle away from there. -/
def behindOctant : Point := ⟨-0.6, -0.64, 0.48⟩

/-- The sides of the triangle between the three positive axes. -/
def octant : List Edge :=
  [⟨⟨1.0, 0.0, 0.0⟩, ⟨0.0, 1.0, 0.0⟩⟩, ⟨⟨0.0, 1.0, 0.0⟩, ⟨0.0, 0.0, 1.0⟩⟩,
    ⟨⟨0.0, 0.0, 1.0⟩, ⟨1.0, 0.0, 0.0⟩⟩]

/-- The way out of the triangle takes a turn, and it leaves through one side, in whatever order and
direction the sides come, in their two parts together, and walked backwards. -/
theorem crossesOdd_symmetric_octant :
    ¬ inOctant.dot behindOctant ≥ 0.0 ∧ (inOctant + behindOctant).norm2 > 1e-20 ∧
      inOctant.crossesOdd behindOctant octant = true ∧
      inOctant.crossesOdd behindOctant octant.reverse = true ∧
      inOctant.crossesOdd behindOctant (octant.map Edge.reverse) = true ∧
      (inOctant.crossesOdd behindOctant (octant.take 1) ^^
        inOctant.crossesOdd behindOctant (octant.drop 1)) = true ∧
      behindOctant.crossesOdd inOctant octant = true := by
  obtain ⟨-, hparity⟩ := crossesOdd_symmetric
  obtain ⟨hperm, hturned, hsplit, hswap⟩ := hparity inOctant behindOctant octant
  have hcross : inOctant.crossesOdd behindOctant octant = true := by decide +kernel
  have hmiddle : (inOctant + behindOctant).norm2 > 1e-20 := by decide +kernel
  have hreversed : List.Forall₂ (fun e f => f = e ∨ f = e.reverse) octant
      (octant.map Edge.reverse) :=
    .cons (.inr rfl) (.cons (.inr rfl) (.cons (.inr rfl) .nil))
  refine ⟨by decide +kernel, hmiddle, hcross, ?_, ?_, ?_, ?_⟩
  · rw [hperm _ (List.reverse_perm octant).symm, hcross]
  · rw [hturned _ hreversed, hcross]
  · rw [← hsplit _ _ (List.take_append_drop 1 octant).symm, hcross]
  · rw [hswap (Or.inr hmiddle), hcross]

end Point

end SphereSearch
