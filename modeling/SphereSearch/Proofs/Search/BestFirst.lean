import SphereSearch.Proofs.Search.BruteForce
import SphereSearch.Proofs.Search.Run

/-!
# The best-first search

The best-first search leaves regions out, and it may, as long as the target shows every edge
(`Measure.Shows`): some index cell lists the edge, and no bound on the way to this cell is above
the distance of the edge.  Then in the end the results of all edges are settled, so without an
allowance for error the search finds what brute force finds
(`Target.search_bestFirst_eq_search_bruteForce`).
-/

namespace SphereSearch

/-- An index cell lists an edge, and the bounds on the distances of this cell and of all cells
of the grid around it are not above the distance of the edge. -/
def Measure.Shows (μ : Measure) (x : Index) (D : EdgeRef → Chord) (r : EdgeRef)
    (cell : IndexCell) : Prop :=
  r ∈ x.edgesOf cell ∧ ∀ level ≤ cell.id.level, ∀ m, D r < m →
    ∃ v ≤ D r, μ.toCell (Cell.ofId (cell.id.parentAt level)) m = some v

/-- What the target shows is not hidden when bounds are taken as they are. -/
lemma Measure.Shows.ledger_shows {p : Search.Plan} {D : EdgeRef → Chord} {r : EdgeRef}
    {cell : IndexCell} (h : p.measure.Shows p.index D r cell) (he : p.Exact D) {k : ℕ}
    {T base : Finset Search.Result} {M : Chord}
    (hT : ∀ r ∈ p.index.edges, D r < M → r.result D ∈ T) :
    (he.ledger k base hT).Shows r cell := by
  refine ⟨h.1, ?_⟩
  intro level hlevel m _
  rcases lt_or_ge (D r) m with hlt | hle
  · obtain ⟨v, hv, hsome⟩ := h.2 level hlevel m hlt
    refine Or.inl ⟨v, hsome, ?_⟩
    simp only [Search.Plan.reduce]
    rw [he.slack_eq]
    exact hv
  · exact Or.inr ⟨D r, le_refl _, hle⟩

namespace Search

/-- A search without an allowance for error finds the first of the possible answers, whichever
way it goes.  The bounds on the distances of cells matter only if it goes by them. -/
theorem Request.run_eq_firstOf {q : Request} (hx : q.index.WellFormed)
    (herr : q.settings.maxError = Chord.zero) (hM : Chord.zero < q.settings.maxDistance)
    (happrox : q.isApproximate = false)
    (hD : ∀ r ∈ q.index.edges, q.measure.toEdge r.edge = Closer.ofChord (D r))
    (hzero : ∀ r ∈ q.index.edges, D r < q.settings.maxDistance → Chord.zero ≤ D r)
    (hshows : q.usesBruteForce = false → q.measure.cap.isEmpty = false ∧
      ∀ r ∈ q.index.edges, ∃ cell ∈ q.index.cells, q.measure.Shows q.index D r cell) :
    q.run = firstOf q.settings.maxResults (q.answers D).sort := by
  cases hbrute : q.usesBruteForce with
  | true => exact run_bruteForce herr hM happrox hD hbrute
  | false =>
    obtain ⟨hcap, hshows⟩ := hshows hbrute
    rw [run_of_zero_lt herr hM, hbrute, if_neg Bool.false_ne_true]
    generalize q.interiors.limit = limit
    have he : (q.plan limit).Exact D := exact_plan happrox hD limit
    let L := he.ledger q.settings.maxResults q.interiorAnswers mem_answers_of_lt
    have hdealt : L.Dealt ⟨q.interiors, [], .empty⟩ ∅ :=
      ⟨q.interiorAnswers, Finset.Subset.refl _,
        (offered_interiors herr hM).mono Finset.subset_union_left, by simp⟩
    have hfair : ∀ r ∈ q.index.edges, ∃ d, L.Fair r d ∧ Chord.zero ≤ d := by
      intro r hr
      refine ⟨D r, le_refl _, ?_⟩
      rcases lt_or_ge (D r) q.settings.maxDistance with hlt | hge
      · exact hzero r hr hlt
      · exact hM.le.trans hge
    have hshows : ∀ r ∈ q.index.edges, ∃ cell ∈ q.index.cells, L.Shows r cell := by
      intro r hr
      obtain ⟨cell, hcell, hshow⟩ := hshows r hr
      exact ⟨cell, hcell, hshow.ledger_shows he _⟩
    obtain ⟨E, ⟨S, hS, hoffered, hsettled⟩, hall⟩ := L.bestFirst hx hcap hfair hshows hdealt
    exact results_eq_of_settled hS hoffered fun r hr => hsettled r hr (hall r hr)

/-- What a target finds in an index when every edge has one distance.  If the search goes by
cells, the target has to show every edge. -/
lemma Target.search_eq_firstOf {t : Target} {shapes : List Shape} {indexSettings : Index.Settings}
    {settings : Settings} {threshold : ℕ} (herr : settings.maxError = Chord.zero)
    (hM : Chord.zero < settings.maxDistance)
    (hD : ∀ r ∈ EdgeRef.all shapes, t.measure.toEdge r.edge = Closer.ofChord (D r))
    (hshows : (t.request (Index.build shapes indexSettings) settings threshold).usesBruteForce =
        false →
      t.measure.cap.isEmpty = false ∧
        ∀ r ∈ EdgeRef.all shapes, ∃ cell ∈ (Index.build shapes indexSettings).cells,
          t.measure.Shows (Index.build shapes indexSettings) D r cell) :
    t.search (Index.build shapes indexSettings) settings threshold =
      firstOf settings.maxResults
        ((t.request (Index.build shapes indexSettings) settings threshold).answers D).sort := by
  obtain ⟨happrox, hmeasure⟩ := isApproximate_request (t := t)
    (x := Index.build shapes indexSettings) herr threshold
  refine Request.run_eq_firstOf (D := D)
    (q := t.request (Index.build shapes indexSettings) settings threshold)
    (Index.wellFormed_buildWith _ shapes indexSettings) herr hM happrox ?_ ?_ ?_
  · intro r hr
    rw [hmeasure]
    exact hD r hr
  · intro r hr hlt
    have hsome : t.measure.toEdge r.edge settings.maxDistance = some (D r) := by
      rw [hD r hr]
      exact if_pos hlt
    exact zero_le_of_toEdge hsome
  · rw [hmeasure]
    exact hshows

/-- **Best-first search is exact.**  If every edge has one distance, and every edge is listed by
an index cell for which the target has no bound above this distance, nor for any of the cells of
the grid around it, then the search by cells finds what brute force finds, with ties broken in
the same way. -/
theorem Target.search_bestFirst_eq_search_bruteForce (t : Target) (shapes : List Shape)
    (indexSettings : Index.Settings) (settings : Settings) (threshold threshold' : ℕ)
    (D : EdgeRef → Chord) (herr : settings.maxError = Chord.zero)
    (hcap : t.measure.cap.isEmpty = false)
    (hD : ∀ r ∈ EdgeRef.all shapes, t.measure.toEdge r.edge = Closer.ofChord (D r))
    (hshows : ∀ r ∈ EdgeRef.all shapes, ∃ cell ∈ (Index.build shapes indexSettings).cells,
      t.measure.Shows (Index.build shapes indexSettings) D r cell) :
    t.search (Index.build shapes indexSettings) { settings with useBruteForce := false }
        threshold =
      t.search (Index.build shapes indexSettings) { settings with useBruteForce := true }
        threshold' := by
  rcases le_or_gt settings.maxDistance Chord.zero with hM | hM
  · have hnone : ∀ (brute : Bool) (n : ℕ), t.search (Index.build shapes indexSettings)
        { settings with useBruteForce := brute } n = [] :=
      fun brute n => Request.run_of_le_zero (q := t.request (Index.build shapes indexSettings)
        { settings with useBruteForce := brute } n) hM
    rw [hnone, hnone]
  · have hrun : ∀ (brute : Bool) (n : ℕ), t.search (Index.build shapes indexSettings)
        { settings with useBruteForce := brute } n = firstOf settings.maxResults
          ((t.request (Index.build shapes indexSettings) settings n).answers D).sort :=
      fun brute n => search_eq_firstOf herr hM hD fun _ => ⟨hcap, hshows⟩
    exact (hrun false threshold).trans (hrun true threshold').symm

/-- The faces at the poles list the points there. -/
lemma cells_polarShapes :
    (Index.build polarShapes ⟨10, 0, by decide, by decide⟩).cells =
      #[⟨CellId.ofFace 4, [⟨0, false, [1, 2]⟩]⟩, ⟨CellId.ofFace 5, [⟨0, false, [0]⟩]⟩] := by
  decide +kernel

/-- The faces at the poles are no farther from the north pole than the points that they list. -/
lemma shows_polarShapes :
    ∀ r ∈ EdgeRef.all polarShapes,
      ∃ cell ∈ (Index.build polarShapes ⟨10, 0, by decide, by decide⟩).cells,
        (Site.point Point.north).measure.Shows
          (Index.build polarShapes ⟨10, 0, by decide, by decide⟩)
          (fun r => Chord.between Point.north r.edge.start) r cell := by
  have hface : ∀ face < CellId.faceCount, ∀ (e : Edge) (clipped : List ClippedShape),
      (Cell.ofId (CellId.ofFace face)).cap.distanceToPoint Point.north ≤
        Chord.between Point.north e.start →
      ∀ level ≤ (⟨CellId.ofFace face, clipped⟩ : IndexCell).id.level, ∀ m,
        Chord.between Point.north e.start < m →
        ∃ v ≤ Chord.between Point.north e.start, (Site.point Point.north).measure.toCell
          (Cell.ofId ((CellId.ofFace face).parentAt level)) m = some v := by
    intro face hf e clipped hle level hl m hm
    rw [CellId.At.parentAt_ofFace hf hl]
    exact ⟨_, hle, if_pos (hle.trans_lt hm)⟩
  have hall : EdgeRef.all polarShapes = [⟨0, 0, .degenerate ⟨0.0, 0.0, -1.0⟩⟩,
      ⟨0, 1, .degenerate Point.north⟩, ⟨0, 2, .degenerate Point.north⟩] := rfl
  rw [hall, cells_polarShapes]
  intro r hr
  simp only [List.mem_cons, List.not_mem_nil, or_false] at hr
  rcases hr with rfl | rfl | rfl
  · refine ⟨_, Array.mem_of_getElem? (i := 1) rfl, List.mem_singleton_self _, ?_⟩
    exact hface 5 (by decide) _ _ (by decide +kernel)
  · refine ⟨_, Array.mem_of_getElem? (i := 0) rfl, List.mem_cons_self, ?_⟩
    exact hface 4 (by decide) _ _ (by decide +kernel)
  · refine ⟨_, Array.mem_of_getElem? (i := 0) rfl, List.mem_cons_of_mem _ List.mem_cons_self, ?_⟩
    exact hface 4 (by decide) _ _ (by decide +kernel)

/-- Two nearest points at the same distance, of which the search by cells finds both. -/
theorem Target.search_bestFirst_eq_search_bruteForce_north :
    let x := Index.build polarShapes ⟨10, 0, by decide, by decide⟩
    let t := Target.site (.point Point.north)
    let settings := { Settings.default with maxResults := 2, maxResults_pos := by decide }
    t.measure.cap.isEmpty = false ∧
      t.search x { settings with useBruteForce := false } 0 =
        t.search x { settings with useBruteForce := true } 0 := by
  intro x t settings
  have hcap : t.measure.cap.isEmpty = false := by decide +kernel
  exact ⟨hcap, search_bestFirst_eq_search_bruteForce t polarShapes _ settings 0 0
    (fun r => Chord.between Point.north r.edge.start) rfl hcap closerPoint?_polarShapes
    shows_polarShapes⟩

end Search

end SphereSearch
