import SphereSearch.Proofs.Search.AboveZero
import SphereSearch.Proofs.Search.Distance
import SphereSearch.Proofs.Sphere.Caps

/-!
# The distance between two indexes

The distance from an index to an edge is found by another search, which is cut by the limit of the
outer one and goes by brute force or by cells on its own account.  If any two edges have one
distance against the limits above zero, and no cell hides an edge (`Pairs`), then this search finds
the least distance of the edge to those of the index (`IndexTarget.closer?_edge_cases`), and the
outer search finds the least distance over all pairs of edges, whichever of the two indexes is
searched (`IndexTarget.closer?_edge_and_distance`).
-/

namespace SphereSearch.Search

/-! ### The nearest edge of an index -/

/-- From the edge `e`, every edge of the index has one distance against the limits above zero,
which `P` gives, and it is listed by an index cell such that neither the bound on this cell nor
those on the cells of the grid around it are above this distance. -/
structure Pairs (P : Edge → Edge → Chord) (x : Index) (e : Edge) : Prop where
  closerEdge?_eq : ∀ r ∈ x.edges, ∀ m, Chord.zero < m →
    e.closerEdge? r.edge m = Closer.ofChord (P e r.edge) m
  shown : ∀ r ∈ x.edges, ∃ cell ∈ x.cells, r ∈ x.edgesOf cell ∧ ∀ level ≤ cell.id.level,
    (Cell.ofId (cell.id.parentAt level)).cap.distanceToEdge e ≤ P e r.edge

lemma Pairs.zero_le {P : Edge → Edge → Chord} {x : Index} {e : Edge} (h : Pairs P x e)
    {r : EdgeRef} (hr : r ∈ x.edges) : Chord.zero ≤ P e r.edge := by
  rcases lt_or_eq_of_le (Chord.le_infinity (P e r.edge)) with hlt | heq
  · have hsome := h.closerEdge?_eq r hr Chord.infinity (by decide)
    rw [Closer.ofChord, if_pos hlt] at hsome
    exact Edge.zero_le_of_closerEdge? hsome
  · rw [heq]
    decide

/-- The cap around an edge has points. -/
lemma Site.isEmpty_cap_edge (e : Edge) : (Site.edge e).measure.cap.isEmpty = false := by
  show (capOfEdge e).isEmpty = false
  simp only [capOfEdge]
  split
  · exact Cap.isEmpty_eq_false (by decide)
  · exact Cap.isEmpty_eq_false
      (Chord.zero_le_widen ((Chord.zero_le_between _ _).trans (le_max_left _ _)) _)

namespace IndexTarget

variable {P : Edge → Edge → Chord} {x : Index} {e : Edge}

/-- What the search inside an index asks for. -/
def innerSettings (t : IndexTarget) (least : Chord) : Settings :=
  { Settings.default with
    maxResults := 1
    maxResults_pos := Nat.one_pos
    maxDistance := least
    maxError := t.maxError
    includeInteriors := t.includeInteriors }

/-- The search inside an index. -/
def inner (t : IndexTarget) (s : Site) (least : Chord) : Request :=
  s.request t.index (t.innerSettings least) unlimited

variable {t : IndexTarget} {s : Site} {m : Chord}

lemma closer?_eq_none (h : (t.inner s m).run = []) : t.closer? s m = none := by
  have hsearch : s.search t.index (t.innerSettings m) unlimited = [] := h
  simp only [innerSettings] at hsearch
  simp only [closer?]
  rw [hsearch]

lemma closer?_eq_some {a : Result} {rest : List Result} (h : (t.inner s m).run = a :: rest)
    (hshape : 0 ≤ a.shapeId) (hlt : a.distance < m) : t.closer? s m = some a.distance := by
  have hsearch : s.search t.index (t.innerSettings m) unlimited = a :: rest := h
  have hfound : (a.isNone || a.distance ≥ m) = false := by
    rw [Bool.or_eq_false_iff]
    exact ⟨decide_eq_false (not_lt.2 hshape), decide_eq_false (not_le.2 hlt)⟩
  simp only [innerSettings] at hsearch
  simp only [closer?]
  rw [hsearch]
  dsimp only
  rw [hfound, if_neg Bool.false_ne_true]

/-- **The nearest edge** of an index to a simple target is found against any limit that is above its
distance, and nothing is found against the others. -/
lemma closer?_cases (hx : x.WellFormed) {E : EdgeRef → Chord}
    (hzero : ∀ r ∈ x.edges, Chord.zero ≤ E r)
    (hE : ∀ r ∈ x.edges, ∀ m, Chord.zero < m →
      s.measure.toEdge r.edge m = Closer.ofChord (E r) m) (m : Chord)
    (hshows : ((exact x false).inner s m).usesBruteForce = false →
      s.measure.cap.isEmpty = false ∧
        ∀ r ∈ x.edges, ∃ cell ∈ x.cells, s.measure.Shows x E r cell) :
    (∀ r ∈ x.edges, m ≤ E r) ∧ (exact x false).closer? s m = none ∨
      ∃ r ∈ x.edges, E r < m ∧ (∀ other ∈ x.edges, E r ≤ E other) ∧
        (exact x false).closer? s m = some (E r) := by
  let q := (exact x false).inner s m
  rcases le_or_gt m Chord.zero with hm | hm
  · exact Or.inl ⟨fun r hr => hm.trans (hzero r hr),
      closer?_eq_none (Request.run_of_le_zero (q := q) hm)⟩
  · -- No shapes around are asked for, so the answers are the edges within the limit.
    have hrun : q.run = firstOf 1 (q.answers E).sort :=
      Request.run_eq_firstOf_of_pos (q := q) hx rfl hm rfl hzero hE hshows
    have hanswers : ∀ a, a ∈ q.answers E ↔ ∃ r ∈ x.edges, E r < m ∧ r.result E = a := by
      intro a
      rw [Request.mem_answers, Request.mem_interiorAnswers, Request.mem_edgeAnswers]
      exact ⟨fun ha => ha.resolve_left fun hin => Bool.false_ne_true hin.1, Or.inr⟩
    rcases firstOf_one_cases (q.answers E) with ⟨hempty, hnil⟩ | ⟨a, ⟨ha, hleast⟩, hone⟩
    · refine Or.inl ⟨fun r hr => ?_, closer?_eq_none (hrun.trans hnil)⟩
      by_contra hlt
      have hmem := (hanswers (r.result E)).2 ⟨r, hr, not_le.1 hlt, rfl⟩
      rw [hempty] at hmem
      exact absurd hmem (Finset.notMem_empty _)
    · obtain ⟨r, hr, hlt, rfl⟩ := (hanswers a).1 ha
      refine Or.inr ⟨r, hr, hlt, fun other hother => ?_,
        closer?_eq_some (hrun.trans hone) (Int.natCast_nonneg _) hlt⟩
      rcases lt_or_ge (E other) m with hlt' | hge
      · exact Result.distance_le (hleast ((hanswers _).2 ⟨other, hother, hlt', rfl⟩))
      · exact hlt.le.trans hge

/-- The nearest edge of an index to another edge. -/
lemma closer?_edge_cases (hx : x.WellFormed) (h : Pairs P x e) (m : Chord) :
    (∀ r ∈ x.edges, m ≤ P e r.edge) ∧ (exact x false).closer? (.edge e) m = none ∨
      ∃ r ∈ x.edges, P e r.edge < m ∧ (∀ s ∈ x.edges, P e r.edge ≤ P e s.edge) ∧
        (exact x false).closer? (.edge e) m = some (P e r.edge) := by
  refine closer?_cases (s := .edge e) (E := fun r => P e r.edge) hx (fun r hr => h.zero_le hr)
    h.closerEdge?_eq m fun _ => ⟨Site.isEmpty_cap_edge e, fun r hr => ?_⟩
  obtain ⟨cell, hcell, hlists, hbound⟩ := h.shown r hr
  exact ⟨cell, hcell, hlists, fun level hlevel m hm =>
    ⟨_, hbound level hlevel, if_pos ((hbound level hlevel).trans_lt hm)⟩⟩

/-- The distance that an index measures to an edge is that of its nearest edge. -/
lemma isLeast_distance (hx : x.WellFormed) (h : Pairs P x e) :
    IsLeast (insert Chord.infinity {d | ∃ r ∈ x.edges, P e r.edge = d})
      (Closer.distance ((exact x false).closer? (.edge e))) := by
  rw [Closer.distance]
  rcases closer?_edge_cases hx h Chord.infinity with ⟨hall, hnone⟩ | ⟨r, hr, -, hleast, hsome⟩
  · rw [hnone]
    refine ⟨Or.inl rfl, ?_⟩
    rintro d (rfl | ⟨s, hs, rfl⟩)
    · exact le_refl _
    · exact hall s hs
  · rw [hsome]
    refine ⟨Or.inr ⟨r, hr, rfl⟩, ?_⟩
    rintro d (rfl | ⟨s, hs, rfl⟩)
    · exact Chord.le_infinity _
    · exact hleast s hs

/-- An index has one distance to an edge, whatever limit it is measured against. -/
lemma closer?_edge_eq (hx : x.WellFormed) (h : Pairs P x e) :
    (exact x false).closer? (.edge e) =
      Closer.ofChord (Closer.distance ((exact x false).closer? (.edge e))) := by
  obtain ⟨hmem, hle⟩ := isLeast_distance hx h
  funext m
  rcases closer?_edge_cases hx h m with ⟨hall, hnone⟩ | ⟨r, hr, hlt, hleast, hsome⟩
  · rw [hnone, Closer.ofChord, if_neg]
    rcases hmem with heq | ⟨s, hs, heq⟩
    · rw [heq]
      exact not_lt.2 (Chord.le_infinity m)
    · rw [← heq]
      exact not_lt.2 (hall s hs)
  · have heq : Closer.distance ((exact x false).closer? (.edge e)) = P e r.edge := by
      refine le_antisymm (hle (Or.inr ⟨r, hr, rfl⟩)) ?_
      rcases hmem with heq | ⟨s, hs, heq⟩
      · rw [heq]
        exact Chord.le_infinity _
      · rw [← heq]
        exact hleast s hs
    rw [hsome, heq, Closer.ofChord, if_pos hlt]

end IndexTarget

/-! ### The nearest pair -/

/-- The query of an index that measures every edge, with settings that are otherwise default. -/
def Query.byBruteForce (x : Index) : Query :=
  { Query.ofIndex x with settings := { Settings.default with useBruteForce := true } }

namespace IndexTarget

variable {P : Edge → Edge → Chord}

/-- Measuring every edge of one index from another finds the nearest pair. -/
lemma isLeast_distance_pairs {shapes : List Shape} {indexSettings : Index.Settings} {y : Index}
    (hy : y.WellFormed) (h : ∀ r ∈ (Index.build shapes indexSettings).edges, Pairs P y r.edge) :
    IsLeast (insert Chord.infinity
        {d | ∃ r ∈ (Index.build shapes indexSettings).edges, ∃ s ∈ y.edges, P r.edge s.edge = d})
      ((Query.byBruteForce (Index.build shapes indexSettings)).distance
        (.index (exact y false))) := by
  let D : EdgeRef → Chord := fun r => Closer.distance ((exact y false).closer? (.edge r.edge))
  have hD : ∀ r ∈ EdgeRef.all shapes,
      (Target.index (exact y false)).measure.toEdge r.edge = Closer.ofChord (D r) :=
    fun r hr => closer?_edge_eq hy (h r hr)
  obtain ⟨hmem, hle⟩ := Query.isLeast_distance indexSettings
    { Settings.default with useBruteForce := true } unlimited rfl rfl hD
    fun hbrute => by cases hbrute
  constructor
  · rcases hmem with heq | ⟨hon, -⟩ | ⟨r, hr, heq⟩
    · exact Or.inl heq
    · exact absurd hon (by decide)
    · rcases (isLeast_distance hy (h r hr)).1 with hinf | ⟨s, hs, hrs⟩
      · exact Or.inl (heq.symm.trans hinf)
      · exact Or.inr ⟨r, hr, s, hs, hrs.trans heq⟩
  · rintro d (rfl | ⟨r, hr, s, hs, rfl⟩)
    · exact Chord.le_infinity _
    · exact (hle (Or.inr (Or.inr ⟨r, hr, rfl⟩))).trans
        ((isLeast_distance hy (h r hr)).2 (Or.inr ⟨s, hs, rfl⟩))

/-- **The distance between two indexes.**  If any two edges have one distance against the limits
above zero, and the cells of an index do not hide its edges, then the distance from this index to
an edge is the least of those to its edges, against any limit.  So the distance between two
indexes is the least over all pairs of edges, and it is the same from either side if the distance
between edges is. -/
theorem closer?_edge_and_distance (P : Edge → Edge → Chord) (shapes others : List Shape)
    (indexSettings otherSettings : Index.Settings) :
    let x := Index.build shapes indexSettings
    let y := Index.build others otherSettings
    let t := Target.index (exact y false)
    (∀ e, Pairs P y e → ∀ m,
      ((t.measure.toEdge e m).isSome ↔ ∃ s ∈ y.edges, P e s.edge < m) ∧
      ∀ d, t.measure.toEdge e m = some d → IsLeast {d | ∃ s ∈ y.edges, P e s.edge = d} d) ∧
    ((∀ r ∈ x.edges, Pairs P y r.edge) →
      IsLeast (insert Chord.infinity {d | ∃ r ∈ x.edges, ∃ s ∈ y.edges, P r.edge s.edge = d})
        ((Query.byBruteForce x).distance t) ∧
      ((∀ s ∈ y.edges, Pairs P x s.edge) →
        (∀ r ∈ x.edges, ∀ s ∈ y.edges, P r.edge s.edge = P s.edge r.edge) →
        (Query.byBruteForce x).distance t =
          (Query.byBruteForce y).distance (.index (exact x false)))) := by
  intro x y t
  have hx : x.WellFormed := Index.wellFormed_buildWith _ shapes indexSettings
  have hy : y.WellFormed := Index.wellFormed_buildWith _ others otherSettings
  refine ⟨fun e he m => ?_, fun hpairs => ⟨isLeast_distance_pairs hy hpairs, ?_⟩⟩
  · show (((exact y false).closer? (.edge e) m).isSome ↔ _) ∧
      ∀ d, (exact y false).closer? (.edge e) m = some d → _
    rcases closer?_edge_cases hy he m with ⟨hall, hnone⟩ | ⟨s, hs, hlt, hleast, hsome⟩
    · rw [hnone]
      refine ⟨iff_of_false Bool.false_ne_true ?_, fun d hd => by cases hd⟩
      rintro ⟨s, hs, hlt⟩
      exact absurd hlt (not_lt.2 (hall s hs))
    · rw [hsome]
      refine ⟨iff_of_true rfl ⟨s, hs, hlt⟩, ?_⟩
      rintro _ ⟨⟩
      refine ⟨⟨s, hs, rfl⟩, ?_⟩
      rintro _ ⟨other, hother, rfl⟩
      exact hleast other hother
  · -- Both searches find the least of the same distances.
    intro hpairs' hsymm
    have hsame : {d | ∃ r ∈ x.edges, ∃ s ∈ y.edges, P r.edge s.edge = d} =
        {d | ∃ s ∈ y.edges, ∃ r ∈ x.edges, P s.edge r.edge = d} := by
      ext d
      constructor
      · rintro ⟨r, hr, s, hs, rfl⟩
        exact ⟨s, hs, r, hr, (hsymm r hr s hs).symm⟩
      · rintro ⟨s, hs, r, hr, rfl⟩
        exact ⟨r, hr, s, hs, hsymm r hr s hs⟩
    have hleast := isLeast_distance_pairs hy hpairs
    rw [hsame] at hleast
    exact hleast.unique (isLeast_distance_pairs hx hpairs')

/-- One point where the first axis meets the sphere. -/
def frontShapes : List Shape := [.points #[⟨1.0, 0.0, 0.0⟩]]

/-- The face around this point lists it. -/
lemma cells_frontShapes :
    (Index.build frontShapes ⟨10, 0, by decide, by decide⟩).cells =
      #[⟨CellId.ofFace 0, [⟨0, false, [0]⟩]⟩] := by
  decide +kernel

/-- A face alone has to be near enough. -/
lemma bound_ofFace {face : ℕ} (hf : face < CellId.faceCount) (clipped : List ClippedShape)
    {e : Edge} {d : Chord} (hbound : (Cell.ofId (CellId.ofFace face)).cap.distanceToEdge e ≤ d) :
    ∀ level ≤ (⟨CellId.ofFace face, clipped⟩ : IndexCell).id.level,
      (Cell.ofId ((CellId.ofFace face).parentAt level)).cap.distanceToEdge e ≤ d := by
  intro level hle
  rw [CellId.At.parentAt_ofFace hf hle]
  exact hbound

/-- Two single points have one distance. -/
lemma closerEdge?_degenerate {p q : Point} {m : Chord} (hm : Chord.zero < m)
    (hcross : (Edge.degenerate p).crosses (Edge.degenerate q) = false)
    (hp : (Edge.degenerate q).closerPoint? p = Closer.ofChord (Chord.between p q))
    (hq : (Edge.degenerate p).closerPoint? q = Closer.ofChord (Chord.between p q)) :
    (Edge.degenerate p).closerEdge? (Edge.degenerate q) m =
      Closer.ofChord (Chord.between p q) m := by
  refine Edge.closerEdge?_eq_ofChord hm hcross ?_
  intro test htest
  simp only [Edge.endTests, List.mem_cons, List.not_mem_nil, or_false] at htest
  rcases htest with rfl | rfl | rfl | rfl
  · exact hp
  · exact hp
  · exact hq
  · exact hq

/-- From the front, the faces at the poles do not hide the points there, and the other way
around. -/
lemma pairs_polarShapes_frontShapes :
    let P := fun e f : Edge => Chord.between e.start f.start
    let x := Index.build polarShapes ⟨10, 0, by decide, by decide⟩
    let y := Index.build frontShapes ⟨10, 0, by decide, by decide⟩
    (∀ r ∈ x.edges, Pairs P y r.edge) ∧ ∀ s ∈ y.edges, Pairs P x s.edge := by
  intro P x y
  let front : Point := ⟨1.0, 0.0, 0.0⟩
  let south : Point := ⟨0.0, 0.0, -1.0⟩
  have hx : x.edges = [⟨0, 0, .degenerate south⟩, ⟨0, 1, .degenerate Point.north⟩,
      ⟨0, 2, .degenerate Point.north⟩] := rfl
  have hy : y.edges = [⟨0, 0, .degenerate front⟩] := rfl
  have hfar : ∀ p q, (p = front ∧ (q = south ∨ q = Point.north)) ∨
      ((p = south ∨ p = Point.north) ∧ q = front) → ∀ m, Chord.zero < m →
      (Edge.degenerate p).closerEdge? (Edge.degenerate q) m =
        Closer.ofChord (Chord.between p q) m := by
    rintro p q (⟨rfl, rfl | rfl⟩ | ⟨rfl | rfl, rfl⟩) m hm
    all_goals
      refine closerEdge?_degenerate hm (by decide +kernel) ?_ ?_
      all_goals
        exact Edge.closerPoint?_eq_ofChord (Chord.zero_le_between _ _) (by decide +kernel)
          (by decide +kernel) (by decide +kernel)
  have hfront : ∀ p, p = south ∨ p = Point.north → Pairs P y (.degenerate p) := by
    intro p hp
    constructor
    · rw [hy]
      intro s hs m hm
      rw [List.mem_singleton.1 hs]
      exact hfar p front (Or.inr ⟨hp, rfl⟩) m hm
    · rw [hy, cells_frontShapes]
      intro s hs
      rw [List.mem_singleton.1 hs]
      refine ⟨_, Array.mem_of_getElem? (i := 0) rfl, List.mem_singleton_self _, ?_⟩
      rcases hp with rfl | rfl
      · exact bound_ofFace (by decide) _ (by decide +kernel)
      · exact bound_ofFace (by decide) _ (by decide +kernel)
  constructor
  · rw [hx]
    intro r hr
    simp only [List.mem_cons, List.not_mem_nil, or_false] at hr
    rcases hr with rfl | rfl | rfl
    · exact hfront south (Or.inl rfl)
    · exact hfront Point.north (Or.inr rfl)
    · exact hfront Point.north (Or.inr rfl)
  · rw [hy]
    intro s hs
    rw [List.mem_singleton.1 hs]
    constructor
    · rw [hx]
      intro r hr m hm
      simp only [List.mem_cons, List.not_mem_nil, or_false] at hr
      rcases hr with rfl | rfl | rfl
      · exact hfar front south (Or.inl ⟨rfl, Or.inl rfl⟩) m hm
      · exact hfar front Point.north (Or.inl ⟨rfl, Or.inr rfl⟩) m hm
      · exact hfar front Point.north (Or.inl ⟨rfl, Or.inr rfl⟩) m hm
    · rw [hx, cells_polarShapes]
      intro r hr
      simp only [List.mem_cons, List.not_mem_nil, or_false] at hr
      rcases hr with rfl | rfl | rfl
      · refine ⟨_, Array.mem_of_getElem? (i := 1) rfl, List.mem_singleton_self _, ?_⟩
        exact bound_ofFace (by decide) _ (by decide +kernel)
      · refine ⟨_, Array.mem_of_getElem? (i := 0) rfl, List.mem_cons_self, ?_⟩
        exact bound_ofFace (by decide) _ (by decide +kernel)
      · refine ⟨_, Array.mem_of_getElem? (i := 0) rfl,
          List.mem_cons_of_mem _ List.mem_cons_self, ?_⟩
        exact bound_ofFace (by decide) _ (by decide +kernel)

/-- The front and the poles are as far apart from either side. -/
theorem closer?_edge_and_distance_polar :
    let P := fun e f : Edge => Chord.between e.start f.start
    let x := Index.build polarShapes ⟨10, 0, by decide, by decide⟩
    let y := Index.build frontShapes ⟨10, 0, by decide, by decide⟩
    let t := Target.index (exact y false)
    (∀ r ∈ x.edges, Pairs P y r.edge) ∧ (∀ s ∈ y.edges, Pairs P x s.edge) ∧
      (∀ r ∈ x.edges, ∀ s ∈ y.edges, P r.edge s.edge = P s.edge r.edge) ∧
      (∀ r ∈ x.edges, ∀ d, t.measure.toEdge r.edge Chord.infinity = some d →
        IsLeast {d | ∃ s ∈ y.edges, P r.edge s.edge = d} d) ∧
      IsLeast (insert Chord.infinity {d | ∃ r ∈ x.edges, ∃ s ∈ y.edges, P r.edge s.edge = d})
        ((Query.byBruteForce x).distance t) ∧
      (Query.byBruteForce x).distance t =
        (Query.byBruteForce y).distance (.index (exact x false)) := by
  intro P x y t
  obtain ⟨hpairs, hpairs'⟩ := pairs_polarShapes_frontShapes
  have hsymm : ∀ r ∈ x.edges, ∀ s ∈ y.edges, P r.edge s.edge = P s.edge r.edge := by
    decide +kernel
  obtain ⟨hedge, hboth⟩ := closer?_edge_and_distance P polarShapes frontShapes
    ⟨10, 0, by decide, by decide⟩ ⟨10, 0, by decide, by decide⟩
  obtain ⟨hleast, hswap⟩ := hboth hpairs
  exact ⟨hpairs, hpairs', hsymm, fun r hr => (hedge r.edge (hpairs r hr) Chord.infinity).2, hleast,
    hswap hpairs' hsymm⟩

end IndexTarget

end SphereSearch.Search
