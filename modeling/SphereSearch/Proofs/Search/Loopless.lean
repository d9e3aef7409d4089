import SphereSearch.Proofs.Index.Content
import SphereSearch.Proofs.Index.Location
import SphereSearch.Proofs.Search.Inside
import SphereSearch.Search.Query

/-!
# Polygons without loops

A polygon without loops is the whole sphere or has no points at all.  It has no edges that could
be clipped or crossed, so that only the side counts on which its reference point lies.  A full
polygon makes the index cells tile the sphere, has the same entry in each of them, and is around
every target (`Index.Everywhere`); an empty one has no entry anywhere and is never found
(`Index.Nowhere`).
-/

namespace SphereSearch

/-! ### Inside and outside -/

/-- The shape is a polygon without loops, with its reference point inside or outside. -/
def Shape.Loopless (s : Shape) (inside : Bool) : Prop :=
  ∃ g : Polygon, s = .polygon g ∧ g.loops = [] ∧ g.reference.contained = inside

namespace Shape.Loopless

variable {s : Shape} {inside : Bool}

lemma of_isFull (h : s.isFull = true) : s.Loopless true := by
  cases s with
  | points _ => exact absurd h Bool.false_ne_true
  | polyline _ => exact absurd h Bool.false_ne_true
  | polygon g =>
    obtain ⟨hloops, hcontained⟩ := Bool.and_eq_true_iff.1 h
    exact ⟨g, rfl, List.isEmpty_iff.1 hloops, hcontained⟩

lemma of_isEmpty {g : Polygon} (h : g.isEmpty = true) : (Shape.polygon g).Loopless false := by
  rw [Polygon.isEmpty, Bool.and_eq_true, List.isEmpty_iff, Bool.not_eq_true'] at h
  exact ⟨g, rfl, h.1, h.2⟩

lemma hasInterior (h : s.Loopless inside) : s.hasInterior = true := by
  obtain ⟨g, rfl, -⟩ := h
  rfl

lemma edgeCount_eq (h : s.Loopless inside) : s.edgeCount = 0 := by
  obtain ⟨g, rfl, hloops, -⟩ := h
  simp only [Shape.edgeCount, Polygon.edgeCount]
  rw [hloops]
  rfl

/-- No way crosses a boundary, so that all points lie on the side of the reference point. -/
lemma contains_eq (h : s.Loopless inside) (p : Point) : s.contains p = inside := by
  obtain ⟨g, rfl, hloops, hcontained⟩ := h
  simp only [Shape.contains, Polygon.contains, Polygon.edges]
  rw [hloops, hcontained]
  exact Bool.xor_false inside

lemma holdsAnchor_eq (h : s.Loopless inside) (id : CellId) :
    Clipping.geometric.holdsAnchor s id = inside := by
  show (s.hasInterior && s.contains id.anchor) = inside
  rw [h.hasInterior, h.contains_eq, Bool.true_and]

lemma chainStarts_eq_nil (h : s.Loopless inside) : s.chainStarts = [] := by
  obtain ⟨g, rfl, hloops, -⟩ := h
  simp only [Shape.chainStarts]
  rw [hloops]
  rfl

lemma contained_reference (h : s.Loopless inside) : s.reference.contained = inside := by
  obtain ⟨g, rfl, -, hcontained⟩ := h
  exact hcontained

lemma edgesAt_eq_nil (h : s.Loopless inside) (c : Clipping) (id : CellId) :
    c.edgesAt s id = [] := by
  rw [Clipping.edgesAt, h.edgeCount_eq]
  rfl

end Shape.Loopless

namespace Index

variable {shapes : List Shape} {settings : Settings} {s : Shape} {inside : Bool} {i : ℕ}

/-- No edge is one of a shape without loops. -/
lemma shapeId_ne_of_loopless (hs : shapes[i]? = some s) (hloopless : s.Loopless inside)
    {r : EdgeRef} (hr : r ∈ EdgeRef.all shapes) : r.shapeId ≠ i := by
  rintro rfl
  obtain ⟨s', hs', hedge⟩ := EdgeRef.mem_all.1 hr
  obtain rfl := Option.some.inj (hs.symm.trans hs')
  have hlt : r.edgeId < s.edgeCount := by
    rw [← s.isSome_edge?, hedge]
    rfl
  rw [hloopless.edgeCount_eq] at hlt
  exact Nat.not_lt_zero _ hlt

/-- The only entry that a shape without loops can have in an index cell. -/
lemma mem_clipped_loopless (hs : shapes[i]? = some s) (hloopless : s.Loopless inside)
    {cell : IndexCell} (hcell : cell ∈ (build shapes settings).cells) {t : ClippedShape}
    (ht : t.shapeId = i) : t ∈ cell.clipped ↔ inside = true ∧ t = ⟨i, true, []⟩ := by
  obtain ⟨id, -, hleaf⟩ := mem_cells_buildWith.1 hcell
  subst ht
  rw [Clipping.mem_clipped_iff hleaf]
  constructor
  · rintro ⟨s', hs', hsome, hedges, hanchor⟩
    obtain rfl := Option.some.inj (hs.symm.trans hs')
    rw [hloopless.edgesAt_eq_nil] at hsome hedges
    rw [hloopless.holdsAnchor_eq] at hsome hanchor
    obtain rfl := hsome.resolve_left fun hne => hne rfl
    refine ⟨rfl, ?_⟩
    rw [← hedges, ← hanchor]
  · rintro ⟨rfl, ht⟩
    refine ⟨s, hs, ?_, ?_, ?_⟩
    · exact Or.inr (hloopless.holdsAnchor_eq id)
    · rw [hloopless.edgesAt_eq_nil, ht]
    · rw [hloopless.holdsAnchor_eq, ht]

/-- No edges of a shape without loops survive. -/
lemma toldInside_loopless (hs : shapes[i]? = some s) (hloopless : s.Loopless inside) (id : CellId)
    (p : Point) : toldInside Clipping.geometric shapes id p i s = inside := by
  have hsides : Clipping.geometric.sides shapes id i = [] := by
    have hmap : ((Clipping.geometric.survivors shapes id).filter (·.shapeId = i)).map (·.edgeId) =
        Clipping.geometric.edgesAt s id := Clipping.map_edgeId_survivors hs
    rw [hloopless.edgesAt_eq_nil, List.map_eq_nil_iff] at hmap
    simp only [Clipping.sides]
    rw [hmap, List.map_nil]
  simp only [toldInside]
  rw [hsides, hloopless.hasInterior, hloopless.holdsAnchor_eq, Bool.true_and]
  exact Bool.xor_false inside

/-- A shape without loops is around every point or around none. -/
lemma mem_shapesAt_loopless (hs : shapes[i]? = some s) (hloopless : s.Loopless inside)
    (p : Point) : i ∈ (build shapes settings).shapesAt p ↔ inside = true := by
  obtain ⟨n, hleaf⟩ := CellId.exists_at_ofPoint p
  obtain ⟨id, hstops, hold⟩ := Clipping.exists_stopsAt Clipping.geometric settings shapes hleaf
  have hiff : i ∈ (build shapes settings).shapesAt p ↔
      ∃ s, shapes[i]? = some s ∧ toldInside Clipping.geometric shapes id p i s = true :=
    mem_shapesAt_iff hstops hold
  rw [hiff]
  constructor
  · rintro ⟨s', hs', htold⟩
    obtain rfl := Option.some.inj (hs.symm.trans hs')
    rwa [toldInside_loopless hs hloopless] at htold
  · rintro rfl
    exact ⟨s, hs, toldInside_loopless hs hloopless id p⟩

/-- **Tiling.**  If the interior of a shape holds the anchor of every cell, then every leaf is in
one index cell. -/
lemma existsUnique_contains (settings : Settings) (hs : s ∈ shapes)
    (hanchor : ∀ id, Clipping.geometric.holdsAnchor s id = true) {leaf : CellId} {k : ℕ}
    (hleaf : leaf.At 0 k) : ∃! i : ℕ, ∃ cell : IndexCell,
      (build shapes settings).cells[i]? = some cell ∧ cell.id.contains leaf = true := by
  have ht : Tiled (build shapes settings).cells.toList := tiled_buildWith _ shapes settings
  obtain ⟨id, hstops, hold⟩ := Clipping.exists_stopsAt Clipping.geometric settings shapes hleaf
  obtain ⟨cell, hrecord⟩ := Clipping.exists_leaf?_iff.2 (Or.inr ⟨s, hs, hanchor id⟩)
  have hcell : cell ∈ (build shapes settings).cells := mem_cells_buildWith.2 ⟨id, hstops, hrecord⟩
  obtain ⟨i, hi⟩ := Array.mem_iff_getElem?.1 hcell
  obtain ⟨h, n, hat⟩ := ht.exists_at_of_getElem? hi
  rw [← Clipping.id_of_mem_leaf? hrecord] at hold
  refine ⟨i, ⟨cell, hi, (hat.contains_iff_holds hleaf).2 hold⟩, ?_⟩
  rintro j ⟨other, hj, hin⟩
  obtain ⟨h', n', hat'⟩ := ht.exists_at_of_getElem? hj
  obtain ⟨hlow, hhigh⟩ := hleaf.overlap ((hat'.contains_iff_holds hleaf).1 hin) hold
  exact ht.position_eq hj hi hlow hhigh

end Index

/-! ### Around every target -/

lemma CellId.At.rangeMin {a : CellId} {h n : ℕ} (ha : a.At h n) :
    a.rangeMin.At 0 (4 ^ h * n) where
  toNat_eq := by
    rw [ha.toNat_rangeMin, ha.low_eq]
    ring
  height_le := Nat.zero_le _
  number_lt := by
    have hsplit : 4 ^ maxLevel = 4 ^ h * 4 ^ (maxLevel - h) := by
      rw [← Nat.pow_add, Nat.add_sub_cancel' ha.height_le]
    rw [Nat.sub_zero, hsplit, Nat.mul_left_comm]
    exact Nat.mul_lt_mul_of_pos_left ha.number_lt (Nat.pow_pos (by decide))

lemma CellId.At.holds_rangeMin {a : CellId} {h n : ℕ} (ha : a.At h n) : a.Holds a.rangeMin := by
  rw [ha.holds_iff ha.rangeMin (Nat.zero_le h), Nat.sub_zero,
    Nat.mul_div_cancel_left _ (Nat.pow_pos (by decide))]

/-- A shape with edges has a point at which a chain of them begins. -/
lemma Shape.chainStarts_ne_nil {s : Shape} (h : 0 < s.edgeCount) : s.chainStarts ≠ [] := by
  cases s with
  | points ps =>
    intro hnil
    have hsize : ps.size = 0 := by
      rw [← Array.length_toList, show ps.toList = [] from hnil]
      rfl
    exact h.ne' hsize
  | polyline vs =>
    have hsize : 2 ≤ vs.size := by
      simp only [Shape.edgeCount] at h
      omega
    simp only [Shape.chainStarts]
    rw [if_pos hsize, Array.getElem?_eq_getElem (by omega)]
    exact List.cons_ne_nil _ _
  | polygon g =>
    intro hnil
    have hnone : ∀ l ∈ g.loops, l[0]? = none := List.filterMap_eq_nil_iff.1 hnil
    have hzero : ∀ loops : List Loop, (∀ l ∈ loops, l[0]? = none) →
        loops.foldr (fun l n => l.size + n) 0 = 0 := by
      intro loops
      induction loops with
      | nil => exact fun _ => rfl
      | cons l rest ih =>
        intro hall
        have hsize := Array.getElem?_eq_none_iff.1 (hall l List.mem_cons_self)
        rw [List.foldr_cons, ih fun l hl => hall l (List.mem_cons_of_mem _ hl)]
        omega
    exact h.ne' (hzero g.loops hnone)

namespace Search

/-- An index with edges, or with a full polygon, has a point that stands for it. -/
lemma IndexTarget.exists_mem_representatives {t : IndexTarget}
    (h : ∃ s ∈ t.index.shapes, 0 < s.edgeCount ∨ s.isFull = true) :
    ∃ p, p ∈ t.representatives := by
  obtain ⟨s, hs, hpos | hfull⟩ := h
  · obtain ⟨p, hp⟩ := List.exists_mem_of_ne_nil _ (Shape.chainStarts_ne_nil hpos)
    exact ⟨p, mem_representatives.2 ⟨s, hs, Shape.mem_representatives.2 (Or.inl hp)⟩⟩
  · have hloopless := Shape.Loopless.of_isFull hfull
    exact ⟨s.reference.point, mem_representatives.2 ⟨s, hs, Shape.mem_representatives.2
      (Or.inr ⟨hloopless.chainStarts_eq_nil, hloopless.contained_reference, rfl⟩)⟩⟩

end Search

namespace Index

open Search

/-- A shape that is around everything: the index cells tile the sphere, each has an entry for the
shape without edges and with the anchor inside, and the shape is found around every target that
is anywhere. -/
structure Everywhere (x : Index) (i : ℕ) : Prop where
  tiles : ∀ leaf : CellId, leaf.isValid = true → leaf.isLeaf = true →
    ∃! j : ℕ, ∃ cell : IndexCell, x.cells[j]? = some cell ∧ cell.id.contains leaf = true
  entry : ∀ cell ∈ x.cells, ⟨i, true, []⟩ ∈ cell.clipped
  point : ∀ p : Point, i ∈ (Target.site (.point p)).containing x unlimited
  edge : ∀ e : Edge, i ∈ (Target.site (.edge e)).containing x unlimited
  cell : ∀ c : Cell, c.id.isValid = true → i ∈ (Target.site (.cell c)).containing x unlimited
  index : ∀ t : IndexTarget, (∃ s ∈ t.index.shapes, 0 < s.edgeCount ∨ s.isFull = true) →
    i ∈ (Target.index t).containing x unlimited

/-- A shape that is nowhere: no index cell has an entry for it, it is around no target, and no
search has it among its results. -/
structure Nowhere (x : Index) (i : ℕ) : Prop where
  entry : ∀ cell ∈ x.cells, ∀ s ∈ cell.clipped, s.shapeId ≠ i
  containing : ∀ (t : Target) (limit : ℕ), i ∉ t.containing x limit
  results : ∀ q : Query, q.index = x → ∀ t : Target,
    (∀ r ∈ q.closestEdges t, r.shapeId ≠ i) ∧ (q.closestEdge t).shapeId ≠ i

variable {shapes : List Shape} {settings : Settings} {s : Shape} {i : ℕ}

/-- The entry of a full polygon makes it count as around any cell near an index cell. -/
lemma mem_regional_loopless (hs : shapes[i]? = some s) (hloopless : s.Loopless true)
    {cell : IndexCell} (hcell : cell ∈ (build shapes settings).cells) :
    ⟨i, true, []⟩ ∈ (build shapes settings).regional cell := by
  refine List.mem_filter.2 ⟨(mem_clipped_loopless hs hloopless hcell rfl).2 ⟨rfl, rfl⟩, ?_⟩
  show (shapes.toArray[i]?).any Shape.hasInterior = true
  rw [List.getElem?_toArray, hs]
  exact hloopless.hasInterior

/-- A full polygon is around every cell of the grid. -/
lemma mem_shapesAround_loopless (hs : shapes[i]? = some s) (hloopless : s.Loopless true) {c : Cell}
    (hvalid : c.id.isValid = true) : i ∈ (build shapes settings).shapesAround c := by
  have ht : Tiled (build shapes settings).cells.toList := tiled_buildWith _ shapes settings
  obtain ⟨h, n, hat⟩ := CellId.isValid_iff_exists_at.1 hvalid
  have hdescribes := describes_locate ht hat
  simp only [shapesAround]
  cases hlocate : (build shapes settings).locate c.id with
  | indexed j =>
    rw [hlocate] at hdescribes
    obtain ⟨cell, hj, -⟩ := hdescribes
    obtain ⟨id, hstops, hleaf⟩ := mem_cells_buildWith.1 (Array.mem_of_getElem? hj)
    dsimp only
    rw [hj]
    exact (mem_holding_iff hleaf).2 ⟨s, hs, toldInside_loopless hs hloopless id c.center⟩
  | subdivided =>
    obtain ⟨cell, hcell, -⟩ := exists_of_locate_eq_subdivided ht hlocate
    dsimp only
    rw [hcell]
    exact List.mem_map_of_mem (mem_regional_loopless hs hloopless (Array.mem_of_getElem? hcell))
  | disjoint =>
    -- The index cell around a leaf of the cell intersects it.
    rw [hlocate] at hdescribes
    obtain ⟨j, ⟨cell, hj, hin⟩, -⟩ := existsUnique_contains settings
      (List.mem_of_getElem? hs) hloopless.holdsAnchor_eq hat.rangeMin
    obtain ⟨H, N, hcat⟩ := ht.exists_at_of_getElem? hj
    have hapart := hdescribes cell (Array.mem_of_getElem? hj)
    obtain ⟨hlow, hhigh⟩ :=
      hat.rangeMin.overlap ((hcat.contains_iff_holds hat.rangeMin).1 hin) hat.holds_rangeMin
    have hmeet := (hcat.intersects_iff hat).2 (hcat.holds_or_holds hat hlow hhigh)
    exact absurd (hapart.symm.trans hmeet) Bool.false_ne_true

/-- **Full polygons** are everywhere. -/
lemma everywhere_of_loopless (hlength : shapes.length ≤ unlimited) (hs : shapes[i]? = some s)
    (hloopless : s.Loopless true) : (build shapes settings).Everywhere i where
  tiles leaf hvalid hleaf := by
    obtain ⟨n, hat⟩ := CellId.exists_at_zero hvalid hleaf
    exact existsUnique_contains settings (List.mem_of_getElem? hs) hloopless.holdsAnchor_eq hat
  entry cell hcell := (mem_clipped_loopless hs hloopless hcell rfl).2 ⟨rfl, rfl⟩
  point p := (Target.mem_containing_unlimited hlength).2
    ((mem_shapesAt_loopless hs hloopless p).2 rfl)
  edge e := (Target.mem_containing_unlimited hlength).2
    ((mem_shapesAt_loopless hs hloopless _).2 rfl)
  cell c hvalid := (Target.mem_containing_unlimited hlength).2
    (mem_shapesAround_loopless hs hloopless hvalid)
  index t ht := by
    obtain ⟨p, hp⟩ := IndexTarget.exists_mem_representatives ht
    exact (Target.mem_containing_unlimited hlength).2
      (List.mem_flatMap.2 ⟨p, hp, (mem_shapesAt_loopless hs hloopless p).2 rfl⟩)

/-- **Empty polygons** are nowhere. -/
lemma nowhere_of_loopless (hs : shapes[i]? = some s) (hloopless : s.Loopless false) :
    (build shapes settings).Nowhere i := by
  have hentry : ∀ cell ∈ (build shapes settings).cells, ∀ t ∈ cell.clipped, t.shapeId ≠ i :=
    fun cell hcell t ht heq => absurd
      ((mem_clipped_loopless hs hloopless hcell heq).1 ht).1 Bool.false_ne_true
  have hcontaining : ∀ (t : Target) (limit : ℕ),
      i ∉ t.containing (build shapes settings) limit := by
    intro t limit hmem
    obtain ⟨cell, hcell, e, he, heq⟩ := Target.regional_of_mem_containing hmem
    exact hentry cell hcell e (List.mem_filter.1 he).1 heq
  have hsearch : ∀ (t : Target) (settings' : Search.Settings) (threshold : ℕ),
      ∀ r ∈ t.search (build shapes settings) settings' threshold, r.shapeId ≠ i := by
    intro t settings' threshold
    refine Request.forall_run (P := fun r => r.shapeId ≠ i) ?_ ?_
    · intro j hj heq
      obtain rfl : j = i := Int.natCast_inj.1 heq
      exact hcontaining t _ hj
    · intro r hr m d _ heq
      have hall : r ∈ EdgeRef.all shapes :=
        (wellFormed_buildWith _ shapes settings).mem_edges_of_lists hr
      exact shapeId_ne_of_loopless hs hloopless hall (Int.natCast_inj.1 heq)
  refine ⟨hentry, hcontaining, ?_⟩
  rintro ⟨x, settings', threshold⟩ rfl t
  refine ⟨hsearch t settings' threshold, ?_⟩
  simp only [Query.closestEdge]
  cases hfound : t.search (build shapes settings)
      { settings' with maxResults := 1, maxResults_pos := Nat.one_pos } threshold with
  | nil =>
    show (-1 : ℤ) ≠ i
    omega
  | cons r rest => exact hsearch t _ threshold r (hfound ▸ List.mem_cons_self)

/-- **Polygons without loops.**  In an index with fewer than two to the thirty-first shapes, every
full polygon is everywhere and every empty one is nowhere. -/
theorem everywhere_and_nowhere (shapes : List Shape) (settings : Settings)
    (hlength : shapes.length < 2 ^ 31) :
    (∀ (i : ℕ) (g : Polygon), shapes[i]? = some (.polygon g) → g.isFull = true →
      (build shapes settings).Everywhere i) ∧
    ∀ (i : ℕ) (g : Polygon), shapes[i]? = some (.polygon g) → g.isEmpty = true →
      (build shapes settings).Nowhere i := by
  have hunlimited : shapes.length ≤ unlimited := hlength.le.trans (by decide)
  exact ⟨fun i g hg hfull => everywhere_of_loopless hunlimited hg (.of_isFull hfull),
    fun i g hg hempty => nowhere_of_loopless hg (.of_isEmpty hempty)⟩

/-- The whole sphere and nothing, in one index. -/
theorem everywhere_and_nowhere_full_empty :
    let shapes := [Shape.polygon .full, Shape.polygon .empty]
    shapes.length < 2 ^ 31 ∧ (build shapes .default).Everywhere 0 ∧
      (build shapes .default).Nowhere 1 := by
  intro shapes
  have hlength : shapes.length < 2 ^ 31 := by decide
  obtain ⟨hfull, hempty⟩ := everywhere_and_nowhere shapes .default hlength
  exact ⟨hlength, hfull 0 .full rfl rfl, hempty 1 .empty rfl rfl⟩

end Index

end SphereSearch
