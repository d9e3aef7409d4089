import SphereSearch.Proofs.Shape.Edges
import SphereSearch.Proofs.Sphere.Parity
import SphereSearch.Shape.Polygon

/-!
# Writing the loops of a polygon in another way

Loops may begin at another vertex and come in another order.  This changes neither the edges of a
polygon, but for their order (`Polygon.perm_edges`), nor what a parity of crossings is counted over;
but it changes the reference point.  In general position the answers of the two polygons differ
everywhere or nowhere, by the parity of crossings between the two reference points
(`Polygon.contains_eq_iff`).  So polygons made from the loops agree if one has the reference point of
the other inside (`Polygon.contains_ofLoops_eq_iff`).  Where a way runs through a vertex, the edges
at that vertex are not counted at all, and the answers may differ at a single point
(`Polygon.contains_ne_acrossFirstAxis`).
-/

namespace SphereSearch

namespace Loop

/-- The edges join each vertex to the next one. -/
lemma edges_eq_zipWith (l : Loop) :
    l.edges = List.zipWith Edge.mk l.toList (l.toList.rotate 1) := by
  have hall : ∀ i, i < l.size → (Loop.edge? l i).isSome := fun i hi => (l.isSome_edge? i).2 hi
  obtain ⟨hlen, hget⟩ := getElem?_filterMap_range hall
  refine List.ext_getElem? fun i => ?_
  by_cases hi : i < l.size
  · have hnext : (i + 1) % l.size < l.size := Nat.mod_lt _ (by omega)
    have hedge : Loop.edge? l i = some ⟨l[i], l[(i + 1) % l.size]⟩ := by
      simp only [Loop.edge?]
      rw [dif_pos hi]
    rw [edges, hget i hi, hedge, List.getElem?_zipWith, List.getElem?_rotate (by simpa using hi),
      Array.length_toList, Array.getElem?_toList, Array.getElem?_toList,
      Array.getElem?_eq_getElem hi, Array.getElem?_eq_getElem hnext]
  · rw [List.getElem?_eq_none, List.getElem?_eq_none]
    · simpa using hi
    · rw [edges, hlen]
      exact Nat.le_of_not_lt hi

/-- The same vertices in the same cyclic order. -/
def Rotated (l l' : Loop) : Prop := l.toList.IsRotated l'.toList

lemma Rotated.perm_edges {l l' : Loop} (h : l.Rotated l') : l.edges.Perm l'.edges := by
  obtain ⟨k, hk⟩ := h
  rw [edges_eq_zipWith, edges_eq_zipWith, ← hk, List.rotate_rotate, Nat.add_comm,
    ← List.rotate_rotate, ← List.zipWith_rotate_distrib _ _ _ _ (List.length_rotate _ _).symm]
  exact (List.rotate_perm _ _).symm

/-- A loop is a closed chain of edges. -/
lemma closed_edges (l : Loop) : Closed l.edges := by
  have hlen : l.toList.length = (l.toList.rotate 1).length := (List.length_rotate _ _).symm
  have hstart : l.edges.map Edge.start = l.toList := by
    rw [edges_eq_zipWith, ← List.map_uncurry_zip_eq_zipWith, List.map_map]
    exact List.map_fst_zip hlen.le
  have hstop : l.edges.map Edge.stop = l.toList.rotate 1 := by
    rw [edges_eq_zipWith, ← List.map_uncurry_zip_eq_zipWith, List.map_map]
    exact List.map_snd_zip hlen.ge
  rw [Closed, hstart, hstop]
  exact (List.rotate_perm _ _).symm

end Loop

/-- Each loop begins at a vertex of its own choice, and the loops come in any order. -/
def Rewritten (loops loops' : List Loop) : Prop :=
  ∃ rotated, List.Forall₂ Loop.Rotated loops rotated ∧ rotated.Perm loops'

namespace Polygon

variable {P Q : Polygon}

/-- However the loops are written, the edges are the same. -/
lemma perm_edges (h : Rewritten P.loops Q.loops) : P.edges.Perm Q.edges := by
  obtain ⟨rotated, hrotated, hperm⟩ := h
  have hedges : (P.loops.flatMap Loop.edges).Perm (rotated.flatMap Loop.edges) := by
    clear hperm
    generalize P.loops = loops at hrotated
    induction hrotated with
    | nil => exact List.Perm.refl _
    | cons hl _ ih =>
      rw [List.flatMap_cons, List.flatMap_cons]
      exact hl.perm_edges.append ih
  exact hedges.trans (hperm.flatMap_right Loop.edges)

/-- The boundary of a polygon is a closed chain of edges. -/
lemma closed_edges (P : Polygon) : Closed P.edges := by
  show ((P.loops.flatMap Loop.edges).map Edge.start).Perm
    ((P.loops.flatMap Loop.edges).map Edge.stop)
  induction P.loops with
  | nil => exact List.Perm.refl _
  | cons l loops ih =>
    rw [List.flatMap_cons, List.map_append, List.map_append]
    exact (Loop.closed_edges l).append ih

lemma crossesOdd_perm {p q : Point} {edges edges' : List Edge} (h : edges.Perm edges') :
    p.crossesOdd q edges = p.crossesOdd q edges' := by
  show parity (fun e : Edge => e.crossedBy (p.path q)) edges = _
  exact parity_perm _ h

lemma Rewritten.isEmpty_eq {loops loops' : List Loop} (h : Rewritten loops loops') :
    loops.isEmpty = loops'.isEmpty := by
  obtain ⟨rotated, hrotated, hperm⟩ := h
  rw [Bool.eq_iff_iff, List.isEmpty_iff_length_eq_zero, List.isEmpty_iff_length_eq_zero,
    hrotated.length_eq, hperm.length_eq]

/-- A polygon made from loops has a reference point inside, and one made from none has none. -/
lemma reference_of_ofLoops {loops : List Loop} (h : ofLoops loops = .ok P) :
    P.loops = loops ∧ P.reference.contained = !loops.isEmpty := by
  simp only [ofLoops] at h
  split at h
  · cases h
  · split at h
    · rename_i hempty
      obtain rfl := Except.ok.inj h
      rw [hempty]
      exact ⟨(List.isEmpty_iff.1 hempty).symm, rfl⟩
    · rename_i hne
      split at h
      · obtain rfl := Except.ok.inj h
        rw [Bool.not_eq_true] at hne
        rw [hne]
        exact ⟨rfl, rfl⟩
      · cases h

/-- Both ways of writing the loops give polygons whose reference points are on the same side. -/
lemma rewritten_of_ofLoops {loops loops' : List Loop} (hloops : Rewritten loops loops')
    (h : ofLoops loops = .ok P) (h' : ofLoops loops' = .ok Q) :
    Rewritten P.loops Q.loops ∧ P.reference.contained = Q.reference.contained := by
  obtain ⟨rfl, hcontained⟩ := reference_of_ofLoops h
  obtain ⟨rfl, hcontained'⟩ := reference_of_ofLoops h'
  exact ⟨hloops, by rw [hcontained, hcontained', Rewritten.isEmpty_eq hloops]⟩

/-- In general position, the answers at a point differ by the parity of crossings between the two
reference points, whatever the point. -/
lemma contains_xor_contains (hloops : Rewritten P.loops Q.loops)
    (hcontained : P.reference.contained = Q.reference.contained) {p : Point}
    (hp : P.reference.point.Decided p P.edges) (hp' : Q.reference.point.Decided p P.edges)
    (hreference : P.reference.point.Decided Q.reference.point P.edges)
    (hapart : ∀ e ∈ P.edges, Edge.Apart P.reference.point Q.reference.point p e) :
    (P.contains p ^^ Q.contains p) = P.reference.point.crossesOdd Q.reference.point P.edges := by
  have hclosed := P.closed_edges
  have htriangle := Point.meetsOdd_triangle hclosed hapart
  have hreverse : p.meetsOdd P.reference.point P.edges = P.reference.point.meetsOdd p P.edges :=
    (Point.meetsOdd_comm fun e he => ⟨(hapart e he).wuc, (hapart e he).wud⟩).symm
  rw [hreverse, ← Point.crossesOdd_eq_meetsOdd hclosed hp,
    ← Point.crossesOdd_eq_meetsOdd hclosed hp',
    ← Point.crossesOdd_eq_meetsOdd hclosed hreference] at htriangle
  have hagree : ∀ c a b d : Bool, (d ^^ b ^^ a) = false → ((c ^^ a) ^^ (c ^^ b)) = d := by decide
  rw [contains, contains, hcontained, ← crossesOdd_perm (perm_edges hloops)]
  exact hagree _ _ _ _ htriangle

/-- **Another way of writing the loops.**  In general position, the answers at a point agree exactly
if the boundary is crossed an even number of times between the two reference points, whatever the
point. -/
theorem contains_eq_iff (hloops : Rewritten P.loops Q.loops)
    (hcontained : P.reference.contained = Q.reference.contained) {p : Point}
    (hp : P.reference.point.Decided p P.edges) (hp' : Q.reference.point.Decided p P.edges)
    (hreference : P.reference.point.Decided Q.reference.point P.edges)
    (hapart : ∀ e ∈ P.edges, Edge.Apart P.reference.point Q.reference.point p e) :
    P.contains p = Q.contains p ↔
      P.reference.point.crossesOdd Q.reference.point P.edges = false := by
  rw [← contains_xor_contains hloops hcontained hp hp' hreference hapart]
  exact bne_eq_false_iff_eq.symm

/-- The triangle between the three positive axes, from the first of them. -/
def axes : Loop := #[⟨1.0, 0.0, 0.0⟩, ⟨0.0, 1.0, 0.0⟩, ⟨0.0, 0.0, 1.0⟩]

/-- The same triangle from the second axis. -/
def axesRotated : Loop := #[⟨0.0, 1.0, 0.0⟩, ⟨0.0, 0.0, 1.0⟩, ⟨1.0, 0.0, 0.0⟩]

lemma rewritten_axes : Rewritten [axes] [axesRotated] :=
  ⟨[axesRotated], .cons ⟨1, rfl⟩ .nil, List.Perm.refl _⟩

/-- The triangle from its first axis, with the reference point that is found there. -/
def atFirstAxis : Polygon :=
  ⟨[axes], ⟨⟨.ofBits 0x3FEFFFFEF390876C, .ofBits 0x3F472BA3FF3524DA, .ofBits 0x3F472BA3FF3524DA⟩,
    true⟩⟩

/-- The triangle from its second axis, with the reference point that is found there. -/
def atSecondAxis : Polygon :=
  ⟨[axesRotated],
    ⟨⟨.ofBits 0x3F472BA3FF3524DA, .ofBits 0x3FEFFFFEF390876C, .ofBits 0x3F472BA3FF3524DA⟩, true⟩⟩

/-- A point in the middle of the triangle, on no great circle through two of its corners or
reference points. -/
def middle : Point := ⟨0.64, 0.48, 0.6⟩

/-- In the middle of the triangle, both ways of writing it give the same answer. -/
theorem contains_axes_eq : atFirstAxis.contains middle = atSecondAxis.contains middle := by
  have hp : atFirstAxis.reference.point.Decided middle atFirstAxis.edges :=
    .of_direct (by decide +kernel) (by decide +kernel)
  have hp' : atSecondAxis.reference.point.Decided middle atFirstAxis.edges :=
    .of_direct (by decide +kernel) (by decide +kernel)
  have hreference :
      atFirstAxis.reference.point.Decided atSecondAxis.reference.point atFirstAxis.edges :=
    .of_direct (by decide +kernel) (by decide +kernel)
  have hapart : ∀ e ∈ atFirstAxis.edges,
      Edge.Apart atFirstAxis.reference.point atSecondAxis.reference.point middle e := by
    decide +kernel
  have hagree := contains_eq_iff (P := atFirstAxis) (Q := atSecondAxis) rewritten_axes rfl hp
    hp' hreference hapart
  refine hagree.2 ?_
  decide +kernel

/-- A point outside the triangle, from which the way to the first reference point runs through the
first axis. -/
def acrossFirstAxis : Point := ⟨0.7777777777777778, -0.4444444444444444, -0.4444444444444444⟩

/-- Where the way runs through a vertex, neither edge there is counted, and a point outside is found
to be inside; from another vertex it is found to be outside. -/
theorem contains_ne_acrossFirstAxis :
    Rewritten atFirstAxis.loops atSecondAxis.loops ∧ acrossFirstAxis.isUnit ∧
      (∀ e ∈ atFirstAxis.edges, Chord.zero < e.distance acrossFirstAxis) ∧
      atFirstAxis.contains acrossFirstAxis = true ∧
      atSecondAxis.contains acrossFirstAxis = false := by
  refine ⟨rewritten_axes, ?_, ?_, ?_, ?_⟩
  · decide +kernel
  · decide +kernel
  · decide +kernel
  · decide +kernel

/-- Of polygons made from loops, the answers in general position agree exactly if one has the
reference point of the other inside. -/
theorem contains_ofLoops_eq_iff {loops loops' : List Loop} (hne : loops ≠ [])
    (hloops : Rewritten loops loops') (h : ofLoops loops = .ok P) (h' : ofLoops loops' = .ok Q)
    {p : Point} (hp : P.reference.point.Decided p P.edges)
    (hp' : Q.reference.point.Decided p P.edges)
    (hreference : P.reference.point.Decided Q.reference.point P.edges)
    (hapart : ∀ e ∈ P.edges, Edge.Apart P.reference.point Q.reference.point p e) :
    P.contains p = Q.contains p ↔ P.contains Q.reference.point = true := by
  obtain ⟨hrewritten, hcontained⟩ := rewritten_of_ofLoops hloops h h'
  have hinside : P.reference.contained = true := by
    rw [(reference_of_ofLoops h).2, List.isEmpty_eq_false_iff.2 hne, Bool.not_false]
  refine bne_eq_false_iff_eq.symm.trans ?_
  show (P.contains p ^^ Q.contains p) = false ↔ _
  rw [contains_xor_contains hrewritten hcontained hp hp' hreference hapart,
    contains.eq_def P Q.reference.point, hinside, Bool.true_xor, Bool.not_eq_true']

end Polygon

end SphereSearch
