import SphereSearch.Proofs.Index.Representation
import SphereSearch.Proofs.Search.Prefix

/-!
# Shapes around a point

A polygon tells its inside by the crossings of its boundary on the way from its reference point.
An index tells it by two ways: from the reference point to the anchor of the cell around the
point, when the index is built, and from there to the point, past the edges that survive down to
the cell.  Both answers agree for all shapes exactly if, for every polygon, the way over the
anchor crosses the boundary as often as the direct one, up to an even number
(`Search.Target.containing_point_eq_iff`).

That is not always the case.  A way that passes through a vertex touches both edges there and
crosses none of them, so that an index can miss that a point is well inside a triangle
(`Search.Target.exists_containing_point_ne`).
-/

namespace SphereSearch

namespace Clipping

/-- The edges of a shape that survive down to a cell. -/
def sides (c : Clipping) (shapes : List Shape) (id : CellId) (shapeId : ℕ) : List Edge :=
  ((c.survivors shapes id).filter (·.shapeId = shapeId)).map (·.edge)

end Clipping

namespace Index

variable {c : Clipping} {shapes : List Shape} {settings : Settings} {id : CellId}
  {cell : IndexCell}

/-- The edges that an index cell lists for a shape are those that survive down to it. -/
lemma clippedEdges_of_clip? {shape : Shape} {shapeId : ℕ} {s : ClippedShape}
    (hclip : c.clip? id (c.survivors shapes id) shape shapeId = some s) :
    (buildWith c shapes settings).clippedEdges s = c.sides shapes id shapeId := by
  obtain ⟨rfl, -⟩ := Clipping.eq_of_clip? hclip
  simp only [clippedEdges, Clipping.sides]
  rw [List.filterMap_map, ← List.filterMap_eq_map]
  refine List.filterMap_congr ?_
  intro r hr
  obtain ⟨hr, hid⟩ := List.mem_filter.1 hr
  have hedge : (buildWith c shapes settings).edge? r.shapeId r.edgeId = some r.edge :=
    edge?_buildWith.2 (Clipping.mem_survivors.1 hr).1
  rw [of_decide_eq_true hid] at hedge
  exact hedge

/-- A shape of which a cell records nothing has no edges there, and its interior does not hold the
anchor. -/
lemma sides_of_clip?_eq_none {shape : Shape} {shapeId : ℕ}
    (hclip : c.clip? id (c.survivors shapes id) shape shapeId = none) :
    c.sides shapes id shapeId = [] ∧ c.holdsAnchor shape id = false := by
  simp only [Clipping.clip?] at hclip
  split at hclip
  · rename_i hnone
    rw [Bool.and_eq_true, List.isEmpty_iff, List.map_eq_nil_iff, Bool.not_eq_true'] at hnone
    refine ⟨?_, hnone.2⟩
    simp only [Clipping.sides]
    rw [hnone.1, List.map_nil]
  · exact absurd hclip (by simp)

/-- Whether a shape holds a point, as told from the anchor of a cell: the answer for the anchor,
changed by each edge on the way that survives down to the cell. -/
def toldInside (c : Clipping) (shapes : List Shape) (id : CellId) (p : Point) (shapeId : ℕ)
    (s : Shape) : Bool :=
  s.hasInterior && (c.holdsAnchor s id ^^ id.anchor.crossesOdd p (c.sides shapes id shapeId))

/-- The shapes around a point according to an index cell. -/
lemma mem_holding_iff (hleaf : c.leaf? shapes id (c.survivors shapes id) = some cell) {p : Point}
    {i : ℕ} :
    i ∈ (buildWith c shapes settings).holding cell p ↔
      ∃ s, shapes[i]? = some s ∧ toldInside c shapes id p i s = true := by
  have hid : cell.id = id := Clipping.id_of_mem_leaf? hleaf
  have hshape : ∀ j, (buildWith c shapes settings).shapes[j]? = shapes[j]? :=
    fun j => List.getElem?_toArray
  simp only [holding, regional, toldInside]
  rw [Clipping.clipped_of_leaf? hleaf, hid]
  constructor
  · intro hi
    obtain ⟨s, hs, rfl⟩ := List.mem_map.1 hi
    obtain ⟨hs, htold⟩ := List.mem_filter.1 hs
    obtain ⟨hs, hinterior⟩ := List.mem_filter.1 hs
    obtain ⟨⟨shape, i⟩, hmem, hclip⟩ := List.mem_filterMap.1 hs
    have hget : shapes[i]? = some shape := List.mk_mem_zipIdx_iff_getElem?.1 hmem
    rw [clippedEdges_of_clip? hclip] at htold
    obtain ⟨rfl, -⟩ := Clipping.eq_of_clip? hclip
    rw [hshape, hget] at hinterior
    refine ⟨shape, hget, ?_⟩
    rw [Bool.and_eq_true]
    exact ⟨hinterior, htold⟩
  · rintro ⟨shape, hget, htold⟩
    rw [Bool.and_eq_true] at htold
    obtain ⟨hinterior, htold⟩ := htold
    cases hclip : c.clip? id (c.survivors shapes id) shape i with
    | none =>
      obtain ⟨hsides, hanchor⟩ := sides_of_clip?_eq_none hclip
      rw [hsides, hanchor] at htold
      exact absurd htold Bool.false_ne_true
    | some s =>
      have hedges : (buildWith c shapes settings).clippedEdges s = c.sides shapes id i :=
        clippedEdges_of_clip? hclip
      obtain ⟨rfl, -⟩ := Clipping.eq_of_clip? hclip
      refine List.mem_map.2 ⟨_, List.mem_filter.2 ⟨List.mem_filter.2 ⟨List.mem_filterMap.2
        ⟨(shape, i), List.mk_mem_zipIdx_iff_getElem?.2 hget, hclip⟩, ?_⟩, ?_⟩, rfl⟩
      · rw [hshape, hget]
        exact hinterior
      · rw [hedges]
        exact htold

/-- **The shapes around a point** are told from the cell around it at which division stops. -/
theorem mem_shapesAt_iff (hstops : c.StopsAt settings shapes id) {p : Point}
    (hold : id.Holds (CellId.ofPoint p)) {i : ℕ} :
    i ∈ (buildWith c shapes settings).shapesAt p ↔
      ∃ s, shapes[i]? = some s ∧ toldInside c shapes id p i s = true := by
  have ht := tiled_buildWith c shapes settings
  cases hleaf : c.leaf? shapes id (c.survivors shapes id) with
  | some cell =>
    have hfound : (buildWith c shapes settings).locatePoint? p = some cell :=
      (locatePoint?_eq_some_iff ht).2 ⟨mem_cells_buildWith.2 ⟨id, hstops, hleaf⟩,
        (Clipping.id_of_mem_leaf? hleaf).symm ▸ hold⟩
    simp only [shapesAt]
    rw [hfound]
    exact mem_holding_iff hleaf
  | none =>
    have hfound : (buildWith c shapes settings).locatePoint? p = none := by
      refine Option.eq_none_iff_forall_not_mem.2 ?_
      intro cell hcell
      obtain ⟨hcell, hold'⟩ := (locatePoint?_eq_some_iff ht).1 hcell
      obtain ⟨id', hstops', hleaf'⟩ := mem_cells_buildWith.1 hcell
      rw [Clipping.id_of_mem_leaf? hleaf'] at hold'
      obtain ⟨n, hat⟩ := CellId.exists_at_ofPoint p
      rw [hstops.eq_of_holds_leaf hstops' hat hold hold', hleaf'] at hleaf
      exact absurd hleaf (by simp)
    simp only [shapesAt]
    rw [hfound]
    refine iff_of_false List.not_mem_nil ?_
    rintro ⟨shape, hget, htold⟩
    have hnone : c.clip? id (c.survivors shapes id) shape i = none := by
      simp only [Clipping.leaf?] at hleaf
      split at hleaf
      · rename_i hempty
        rw [List.isEmpty_iff, List.filterMap_eq_nil_iff] at hempty
        exact hempty (shape, i) (List.mk_mem_zipIdx_iff_getElem?.2 hget)
      · exact absurd hleaf (by simp)
    obtain ⟨hsides, hanchor⟩ := sides_of_clip?_eq_none hnone
    simp only [toldInside] at htold
    rw [hsides, hanchor, Bool.and_eq_true] at htold
    exact absurd htold.2 Bool.false_ne_true

/-- The shapes around a point, by their numbers. -/
lemma shapesAt_eq_filter (hstops : c.StopsAt settings shapes id) {p : Point}
    (hold : id.Holds (CellId.ofPoint p)) :
    (buildWith c shapes settings).shapesAt p =
      (List.range shapes.length).filter fun i => shapes[i]?.any (toldInside c shapes id p i) := by
  have hsorted : ((buildWith c shapes settings).shapesAt p).SortedLT :=
    (pairwise_shapesAt (fun _ hcell => pairwise_clipped hcell) p).sortedLT
  have hsorted' : ((List.range shapes.length).filter
      fun i => shapes[i]?.any (toldInside c shapes id p i)).SortedLT :=
    (List.pairwise_lt_range.filter _).sortedLT
  refine hsorted.eq_of_mem_iff hsorted' fun i => ?_
  rw [mem_shapesAt_iff hstops hold, List.mem_filter, List.mem_range, Option.any_eq_true]
  constructor
  · rintro ⟨s, hs, htold⟩
    exact ⟨(List.getElem?_eq_some_iff.1 hs).1, s, hs, htold⟩
  · exact And.right

end Index

namespace Search

open Index

variable {shapes : List Shape} {settings : Index.Settings} {p : Point} {id : CellId}

/-- The way from the reference point of each polygon over the anchor of a cell to a point crosses
the boundary as often as the direct way, up to an even number.  Between the anchor and the point
only those edges count that survive down to the cell. -/
def WaysAgree (shapes : List Shape) (id : CellId) (p : Point) : Prop :=
  ∀ i g, shapes[i]? = some (.polygon g) →
    (g.reference.point.crossesOdd id.anchor g.edges ^^
      id.anchor.crossesOdd p (Clipping.geometric.sides shapes id i)) =
        g.reference.point.crossesOdd p g.edges

/-- A shape is told to hold a point in the right way exactly if its boundary is crossed alike on
both ways. -/
lemma toldInside_eq_contains_iff {i : ℕ} {g : Polygon} :
    toldInside Clipping.geometric shapes id p i (.polygon g) = g.contains p ↔
      (g.reference.point.crossesOdd id.anchor g.edges ^^
        id.anchor.crossesOdd p (Clipping.geometric.sides shapes id i)) =
          g.reference.point.crossesOdd p g.edges := by
  show (true && ((true && g.contains id.anchor) ^^ _)) = _ ↔ _
  simp only [Polygon.contains]
  rw [Bool.true_and, Bool.true_and, Bool.xor_assoc, Bool.xor_right_inj]

/-- The shapes around a point are those that hold it exactly if the ways agree in the cell around
the point at which division stops. -/
lemma shapesAt_eq_filter_contains_iff (hstops : Clipping.geometric.StopsAt settings shapes id)
    (hold : id.Holds (CellId.ofPoint p)) :
    (Index.build shapes settings).shapesAt p =
      ((List.range shapes.length).filter fun i => shapes[i]?.any (·.contains p)) ↔
        WaysAgree shapes id p := by
  have heq : (Index.build shapes settings).shapesAt p = _ := shapesAt_eq_filter hstops hold
  rw [heq]
  constructor
  · intro h i g hi
    have hmem : i ∈ (List.range shapes.length).filter
          (fun i => shapes[i]?.any (toldInside Clipping.geometric shapes id p i)) ↔
        i ∈ (List.range shapes.length).filter fun i => shapes[i]?.any (·.contains p) := by
      rw [h]
    rw [List.mem_filter, List.mem_filter, and_congr_right_iff, hi] at hmem
    have hrange := List.mem_range.2 (List.getElem?_eq_some_iff.1 hi).1
    exact toldInside_eq_contains_iff.1 (Bool.eq_iff_iff.2 (hmem hrange))
  · intro h
    refine List.filter_congr fun i _ => ?_
    cases hi : shapes[i]? with
    | none => rfl
    | some s =>
      cases s with
      | points _ => rfl
      | polyline _ => rfl
      | polygon g => exact toldInside_eq_contains_iff.2 (h i g hi)

/-- A point has no more shapes around it than can be asked for. -/
lemma Target.containing_point_eq_shapesAt (hshapes : shapes.length ≤ unlimited) :
    (Target.site (.point p)).containing (Index.build shapes settings) unlimited =
      (Index.build shapes settings).shapesAt p := by
  have hsorted : ((Index.build shapes settings).shapesAt p).Pairwise (· < ·) :=
    pairwise_shapesAt (fun _ hcell => pairwise_clipped hcell) p
  have hsubset : (Index.build shapes settings).shapesAt p ⊆ List.range shapes.length :=
    fun i hi => List.mem_range.2 (regional_of_mem_shapesAt hi).hasInterior.lt_size
  have hlength := (List.subperm_of_subset hsorted.nodup hsubset).length_le
  rw [List.length_range] at hlength
  show firstIds unlimited ((Index.build shapes settings).shapesAt p) = _
  rw [firstIds_eq_take hsorted, List.take_of_length_le (hlength.trans hshapes)]

/-- **The shapes around a point** are the shapes whose interior holds it, by ascending number,
exactly if the ways to the point agree: there is one cell around the point at which division
stops, and for each polygon the way over its anchor crosses the boundary as often as the direct
one, up to an even number. -/
theorem Target.containing_point_eq_iff (shapes : List Shape) (settings : Index.Settings)
    (p : Point) (hshapes : shapes.length ≤ unlimited) :
    ∃ id, Clipping.geometric.StopsAt settings shapes id ∧ id.Holds (CellId.ofPoint p) ∧
      ((Target.site (.point p)).containing (Index.build shapes settings) unlimited =
          ((List.range shapes.length).filter fun i => shapes[i]?.any (·.contains p)) ↔
        WaysAgree shapes id p) := by
  obtain ⟨n, hleaf⟩ := CellId.exists_at_ofPoint p
  obtain ⟨id, hstops, hold⟩ := Clipping.exists_stopsAt Clipping.geometric settings shapes hleaf
  refine ⟨id, hstops, hold, ?_⟩
  rw [← shapesAt_eq_filter_contains_iff hstops hold, containing_point_eq_shapesAt hshapes]

/-- The answer of an index for the first axis. -/
theorem Target.containing_point_eq_iff_full :
    [Shape.polygon .full].length ≤ unlimited ∧ ∃ id,
      Clipping.geometric.StopsAt .default [.polygon .full] id ∧
        id.Holds (CellId.ofPoint xAxis) ∧
        ((Target.site (.point xAxis)).containing (Index.build [.polygon .full] .default)
            unlimited = ((List.range 1).filter fun i =>
              [Shape.polygon .full][i]?.any (·.contains xAxis)) ↔
          WaysAgree [.polygon .full] id xAxis) :=
  ⟨by decide, Target.containing_point_eq_iff [.polygon .full] .default xAxis (by decide)⟩

/-! ### A way through a vertex -/

/-- Cells with one edge each, as far as one division goes. -/
def halved : Index.Settings := ⟨1, 1, by decide, by decide⟩

/-- A point inside the triangle between the axes, on the other side of the first axis from the
anchor of face `0`. -/
def acrossVertex : Point :=
  ⟨(CellId.ofFace 0).anchor.x, -(CellId.ofFace 0).anchor.y, -(CellId.ofFace 0).anchor.z⟩

/-- The quarter of face `0` in which this point lies. -/
def quarter : CellId := (CellId.ofFace 0).child 1

variable {reference : ReferencePoint}

/-- Two sides of the triangle may meet the quarter as well. -/
lemma survivors_quarter :
    Clipping.geometric.survivors (octantShapes reference) quarter =
      [⟨0, 0, ⟨xAxis, yAxis⟩⟩, ⟨0, 2, ⟨Point.north, xAxis⟩⟩] := by
  have hface : (CellId.ofFace 0).At (29 + 1) 0 := CellId.At.ofFace (by decide)
  have h0 : Clipping.geometric.mayMeet (Cell.ofId quarter) ⟨xAxis, yAxis⟩ = true := by
    decide +kernel
  have h2 : Clipping.geometric.mayMeet (Cell.ofId quarter) ⟨Point.north, xAxis⟩ = true := by
    decide +kernel
  rw [quarter, ← Clipping.keep_survivors hface (by decide), survivors_octantShapes, ← quarter]
  simp only [Clipping.keep]
  simp only [List.filter_cons, h0, h2, if_true, List.filter_nil]

lemma stopsAt_quarter :
    Clipping.geometric.StopsAt halved (octantShapes reference) quarter := by
  have hface : (CellId.ofFace 0).At (29 + 1) 0 := CellId.At.ofFace (by decide)
  have hlevel : quarter.level = 1 := by decide
  refine ⟨⟨_, _, hface.child (by decide)⟩, hlevel.le, ?_, Or.inl hlevel⟩
  refine Clipping.crowded_child hface (by decide) (Clipping.crowded_face (by decide)) ?_
  rw [survivors_octantShapes]
  decide

/-- If an index tells the shapes around a point right, then the way over the anchor of the cell
around the point crosses the boundary of the triangle as often as the direct one. -/
lemma octant_ways_agree {settings : Index.Settings}
    (hstops : Clipping.geometric.StopsAt settings (octantShapes reference) id)
    (hsurvivors : Clipping.geometric.survivors (octantShapes reference) id =
      [⟨0, 0, ⟨xAxis, yAxis⟩⟩, ⟨0, 2, ⟨Point.north, xAxis⟩⟩])
    (hold : id.Holds (CellId.ofPoint p))
    (heq : (Target.site (.point p)).containing (Index.build (octantShapes reference) settings)
        unlimited =
      (List.range 2).filter fun i => (octantShapes reference)[i]?.any (·.contains p)) :
    (reference.point.crossesOdd id.anchor octant.edges ^^
      id.anchor.crossesOdd p [⟨xAxis, yAxis⟩, ⟨Point.north, xAxis⟩]) =
        reference.point.crossesOdd p octant.edges := by
  have hlength : (octantShapes reference).length ≤ unlimited := show 2 ≤ unlimited by decide
  rw [Target.containing_point_eq_shapesAt hlength] at heq
  have hways := (shapesAt_eq_filter_contains_iff hstops hold).1 heq 0 ⟨[octant], reference⟩ rfl
  simp only [Clipping.sides] at hways
  rw [hsurvivors] at hways
  exact hways

/-- **An index can miss that a point is inside.**  The shortest way from the anchor of face `0`
to a point inside the triangle leads through a vertex and crosses no edge, but the way over the
anchor of a quarter of the face crosses one.  So the answers of an index without divided faces
for both points and of a finer index for the first one are not all right. -/
theorem Target.exists_containing_point_ne :
    ∃ (g : Polygon) (settings : Index.Settings) (p : Point),
      Polygon.ofLoops [octant] = .ok g ∧ p.isUnit = true ∧
        (Target.site (.point p)).containing (Index.build [.polygon g, .polygon .full] settings)
            unlimited ≠
          (List.range 2).filter fun i =>
            [Shape.polygon g, .polygon .full][i]?.any (·.contains p) := by
  obtain ⟨point, hpoint⟩ : ∃ point, Polygon.insidePoint? [octant] = some point :=
    Option.isSome_iff_exists.1 (by decide +kernel)
  have hpolygon : Polygon.ofLoops [octant] = .ok ⟨[octant], ⟨point, true⟩⟩ := by
    have hvalid : [octant].zipIdx.findSome? (fun p => Polygon.loopFault? p.1 p.2) =
        none := by decide +kernel
    simp only [Polygon.ofLoops]
    rw [hvalid, hpoint]
    rfl
  by_contra hall
  have hright : ∀ (settings : Index.Settings) (p : Point), p.isUnit = true →
      (Target.site (.point p)).containing (Index.build (octantShapes ⟨point, true⟩) settings)
          unlimited =
        (List.range 2).filter fun i => (octantShapes ⟨point, true⟩)[i]?.any (·.contains p) := by
    intro settings p hunit
    by_contra hne
    exact hall ⟨_, settings, p, hpolygon, hunit, hne⟩
  have hface : (CellId.ofFace 0).Holds (CellId.ofPoint acrossVertex) := by
    unfold CellId.Holds
    decide +kernel
  have hface' : (CellId.ofFace 0).Holds (CellId.ofPoint quarter.anchor) := by
    unfold CellId.Holds
    decide +kernel
  have hquarter : quarter.Holds (CellId.ofPoint acrossVertex) := by
    unfold CellId.Holds
    decide +kernel
  have hacross := octant_ways_agree stopsAt_octantShapes survivors_octantShapes hface
    (hright .default acrossVertex (by decide +kernel))
  have hanchor := octant_ways_agree stopsAt_octantShapes survivors_octantShapes hface'
    (hright .default quarter.anchor (by decide +kernel))
  have hfine := octant_ways_agree stopsAt_quarter survivors_quarter hquarter
    (hright halved acrossVertex (by decide +kernel))
  -- The way through the vertex crosses nothing, but one of the other two crosses an edge.
  have hvertex : (CellId.ofFace 0).anchor.crossesOdd acrossVertex
      [⟨xAxis, yAxis⟩, ⟨Point.north, xAxis⟩] = false := by decide +kernel
  have hfirst : (CellId.ofFace 0).anchor.crossesOdd quarter.anchor
      [⟨xAxis, yAxis⟩, ⟨Point.north, xAxis⟩] = true := by decide +kernel
  have hsecond : quarter.anchor.crossesOdd acrossVertex
      [⟨xAxis, yAxis⟩, ⟨Point.north, xAxis⟩] = false := by decide +kernel
  rw [hvertex, Bool.xor_false] at hacross
  rw [hfirst, hacross, Bool.xor_true] at hanchor
  rw [hsecond, Bool.xor_false, ← hanchor] at hfine
  exact absurd hfine (Bool.not_ne_self _)

end Search

end SphereSearch
