import SphereSearch.Index.Basic
import SphereSearch.Proofs.Shape.Edges
import SphereSearch.Proofs.Sphere.ChordDifference
import SphereSearch.Proofs.Sphere.Growth

/-!
# The cap of an index holds the ends of its edges

The cap of an index is grown from the ends of all edges around one centre.  Whatever this centre is,
even if the sum of the vertices vanishes or is no number, there is one as soon as there is an edge
(`Index.exists_cap_eq_addPoints`).  So the cap is empty only if there is nothing to hold, and
otherwise it holds the ends of every edge (`Index.grown_caps_hold`).
-/

namespace SphereSearch.Index

variable {x : Index} {r : EdgeRef}

/-- The ends of all edges. -/
def ends (x : Index) : List Point := x.edges.flatMap fun r => [r.edge.start, r.edge.stop]

/-- An index with an edge and without a full polygon has the cap that is grown around a centre to
hold the ends of all edges. -/
lemma exists_cap_eq_addPoints (hr : r ∈ x.edges) (hfull : ¬ x.shapes.any Shape.isFull) :
    ∃ center, x.cap = (Cap.ofPoint center).addPoints x.ends := by
  simp only [cap, if_neg hfull]
  split
  · -- There is a centre if there is an edge.
    rename_i hnone
    split at hnone
    · cases hnone
    · rw [Option.map_eq_none_iff, List.head?_eq_none_iff] at hnone
      exact absurd hr (hnone ▸ List.not_mem_nil)
  · rename_i center _
    exact ⟨center, by rw [Cap.addPoints, ends, List.foldl_flatMap]; rfl⟩

/-- The cap of an index holds the ends of every edge. -/
theorem between_le_radius_cap (hr : r ∈ x.edges) :
    Chord.zero ≤ x.cap.radius ∧ x.cap.radius ≤ Chord.straight ∧
      Chord.between x.cap.center r.edge.start ≤ x.cap.radius ∧
      Chord.between x.cap.center r.edge.stop ≤ x.cap.radius := by
  by_cases hfull : x.shapes.any Shape.isFull
  · rw [cap, if_pos hfull]
    exact ⟨by decide, le_rfl, Chord.between_le_straight _ _, Chord.between_le_straight _ _⟩
  · obtain ⟨center, hcap⟩ := exists_cap_eq_addPoints hr hfull
    rw [hcap, Cap.addPoints_of_zero_le le_rfl]
    have hends : r.edge.start ∈ x.ends ∧ r.edge.stop ∈ x.ends := by
      simp only [ends, List.mem_flatMap]
      exact ⟨⟨r, hr, by simp⟩, r, hr, by simp⟩
    obtain ⟨hzero, hall⟩ := (foldl_max_le_iff (fun p => Chord.between center p) x.ends
      Chord.zero _).1 le_rfl
    refine ⟨hzero, ?_, hall _ hends.1, hall _ hends.2⟩
    rw [foldl_max_le_iff]
    exact ⟨show Chord.zero ≤ Chord.straight by decide, fun p _ => Chord.between_le_straight _ p⟩

/-- An index without edges and without a full polygon has the empty cap. -/
lemma cap_eq_empty (hedges : x.edges = []) (hfull : ¬ x.shapes.any Shape.isFull) :
    x.cap = Cap.empty := by
  have hsum : ¬ (Point.sum (([] : List EdgeRef).map (·.edge.start))).norm2 > 0.0 := by decide
  rw [cap, if_neg hfull, hedges]
  dsimp only
  rw [if_neg hsum]
  rfl

/-- The cap of an index is empty only if there is nothing to hold. -/
lemma isEmpty_cap_iff : x.cap.isEmpty = true ↔ x.edges = [] ∧ ¬ x.shapes.any Shape.isFull := by
  constructor
  · intro h
    refine ⟨?_, fun hfull => ?_⟩
    · rw [List.eq_nil_iff_forall_not_mem]
      intro r hr
      exact Bool.eq_false_iff.1 (Cap.isEmpty_eq_false (between_le_radius_cap hr).1) h
    · rw [cap, if_pos hfull] at h
      exact absurd h (by decide)
  · rintro ⟨hedges, hfull⟩
    rw [cap_eq_empty hedges hfull]
    decide

/-- An index has no edges if none of its shapes has any. -/
lemma edges_build_eq_nil_iff {shapes : List Shape} {settings : Settings} :
    (build shapes settings).edges = [] ↔ ∀ s ∈ shapes, s.edgeCount = 0 := by
  show EdgeRef.all shapes = [] ↔ _
  rw [List.eq_nil_iff_forall_not_mem]
  constructor
  · intro h s hs
    by_contra hne
    obtain ⟨i, hi⟩ := List.mem_iff_getElem?.1 hs
    obtain ⟨e, he⟩ := Option.isSome_iff_exists.1 ((s.isSome_edge? 0).2 (Nat.pos_of_ne_zero hne))
    exact h ⟨i, 0, e⟩ (EdgeRef.mem_all.2 ⟨s, hi, he⟩)
  · intro h r hr
    obtain ⟨s, hs, he⟩ := EdgeRef.mem_all.1 hr
    have hlt := (s.isSome_edge? r.edgeId).1 (Option.isSome_iff_exists.2 ⟨_, he⟩)
    rw [h s (List.mem_of_getElem? hs)] at hlt
    exact Nat.not_lt_zero _ hlt

lemma any_isFull_build_iff {shapes : List Shape} {settings : Settings} :
    (build shapes settings).shapes.any Shape.isFull = true ↔ ∃ s ∈ shapes, s.isFull = true := by
  show shapes.toArray.any Shape.isFull = true ↔ _
  rw [List.any_toArray, List.any_eq_true]

/-- **Growing caps hold their points.**  Each point that is added to a cap is held from then on if
it is finite, along with all that was held before; the radius does not shrink, and the centre is
that of the first cap that is not empty.  From there on the order of the points does not matter.  So
the cap of an index is empty only if there is no edge and no full polygon, and it holds the ends of
every edge. -/
theorem grown_caps_hold :
    (∀ (c : Cap) (points : List Point) (p : Point),
      (c.addPoints points).Grows p (c.addPoints (points ++ [p]))) ∧
    (∀ (c : Cap) (points : List Point) (q : Point),
      c.contains q = true ∨ q ∈ points ∧ q.IsFinite → (c.addPoints points).contains q = true) ∧
    (∀ (c : Cap) (points : List Point),
      (c.isEmpty = false → (c.addPoints points).center = c.center) ∧
        (c.isEmpty = true → ∀ p, (c.addPoints (p :: points)).center = p)) ∧
    (∀ (c : Cap) (points points' : List Point), c.isEmpty = false → points.Perm points' →
      c.addPoints points = c.addPoints points') ∧
    ∀ (shapes : List Shape) (settings : Settings),
      let c := (build shapes settings).cap
      (c.isEmpty = true ↔ (∀ s ∈ shapes, s.edgeCount = 0) ∧ ∀ s ∈ shapes, s.isFull = false) ∧
        ∀ s ∈ shapes, ∀ k e, s.edge? k = some e →
          c.contains e.start = true ∧ c.contains e.stop = true := by
  refine ⟨fun c points p => ?_, fun c points q => Cap.contains_addPoints, fun c points => ?_,
    fun c points points' h hperm => ?_, fun shapes settings => ⟨?_, fun s hs k e he => ?_⟩⟩
  · rw [c.addPoints_append]
    exact (c.addPoints points).grows_addPoint p
  · refine ⟨fun h => ?_, fun h p => ?_⟩
    · rw [Cap.addPoints_of_zero_le (Cap.isEmpty_eq_false_iff.1 h)]
    · show ((c.addPoint p).addPoints points).center = p
      rw [Cap.addPoint_of_isEmpty h, Cap.addPoints_of_zero_le le_rfl]
      rfl
  · exact Cap.addPoints_perm (Cap.isEmpty_eq_false_iff.1 h) hperm
  · rw [isEmpty_cap_iff, edges_build_eq_nil_iff, any_isFull_build_iff]
    simp only [not_exists, not_and, Bool.not_eq_true]
  · obtain ⟨i, hi⟩ := List.mem_iff_getElem?.1 hs
    obtain ⟨-, -, hstart, hstop⟩ := between_le_radius_cap (x := build shapes settings)
      (r := ⟨i, k, e⟩) (EdgeRef.mem_all.2 ⟨s, hi, he⟩)
    exact ⟨Cap.contains_iff.2 hstart, Cap.contains_iff.2 hstop⟩

/-- The empty cap takes its centre from the first of two points and holds the other one, the cap of
a point is the same in either order, and the index of the north pole holds it. -/
theorem grown_caps_hold_north :
    let a : Point := ⟨1.0, 0.0, 0.0⟩
    let x := build [.points #[Point.north]] Settings.default
    (Cap.empty.isEmpty = true ∧ (Cap.empty.addPoints [a, Point.north]).center = a) ∧
    (Point.north ∈ [a, Point.north] ∧ Point.north.IsFinite ∧
      (Cap.empty.addPoints [a, Point.north]).contains Point.north = true) ∧
    ((Cap.ofPoint a).isEmpty = false ∧ [a, Point.north].Perm [Point.north, a] ∧
      (Cap.ofPoint a).addPoints [a, Point.north] = (Cap.ofPoint a).addPoints [Point.north, a] ∧
      ((Cap.ofPoint a).addPoints [a, Point.north]).center = a) ∧
    (Shape.points #[Point.north]).edge? 0 = some (.degenerate Point.north) ∧
      x.cap.contains Point.north = true := by
  intro a x
  obtain ⟨-, hholds, hcenter, hperm, hindex⟩ := grown_caps_hold
  have hempty : Cap.empty.isEmpty = true := by decide
  have hpoint : (Cap.ofPoint a).isEmpty = false := by decide
  have hmem : Point.north ∈ [a, Point.north] := by simp
  have hfinite : Point.north.IsFinite := ⟨by decide, by decide, by decide⟩
  have hswap : [a, Point.north].Perm [Point.north, a] := .swap _ _ _
  have hedge : (Shape.points #[Point.north]).edge? 0 = some (.degenerate Point.north) := rfl
  refine ⟨⟨hempty, (hcenter _ _).2 hempty a⟩,
    ⟨hmem, hfinite, hholds _ _ _ (Or.inr ⟨hmem, hfinite⟩)⟩,
    ⟨hpoint, hswap, hperm _ _ _ hpoint hswap, (hcenter _ _).1 hpoint⟩, hedge, ?_⟩
  exact ((hindex _ Settings.default).2 _ (List.mem_singleton_self _) 0 _ hedge).1

end SphereSearch.Index
