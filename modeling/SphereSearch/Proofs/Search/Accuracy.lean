import SphereSearch.Proofs.Search.Answer
import SphereSearch.Proofs.Search.BestFirst

/-!
# The accuracy of a search

With an allowance for error a search need not find the closest edges.  The limit drops below
results that are kept, so that edges which are hardly closer are passed over, and an index as a
target reports distances and bounds that are too large by the allowance.  The two do not add up:
no edge that is left out is closer than a result by more than the allowance, and if there are
fewer results than wanted, then no edge within the limit is left out at all
(`Search.Target.search_accurate`).

An edge has been reached (`Search.Reached`) once a result for it was offered which is too far away
by at most the allowance, or the limit has fallen to its distance.  That is what the account of
such a search says of the edges dealt with (`Search.Plan.Approximate.ledger`).  Whether bounds are
reduced by the allowance is decided once, from the first limit.  If they are not, although the
target is an index, then the allowance exceeds the first limit, and as soon as the limit has
fallen at all, it has fallen to the distance of every edge.
-/

namespace SphereSearch

/-- The target reports a distance for the edge exactly if the edge is closer than the limit.  What
it reports is below the limit and not below the distance of the edge, and `Near` says how far
above this it may be. -/
structure Measure.Gauges (μ : Measure) (Near : Chord → Chord → Prop) (D : EdgeRef → Chord)
    (r : EdgeRef) : Prop where
  isSome_iff : ∀ m, (μ.toEdge r.edge m).isSome ↔ D r < m
  of_eq_some : ∀ m v, μ.toEdge r.edge m = some v → D r ≤ v ∧ v < m ∧ Near v (D r)

/-- An index cell lists the edge, and for this cell and all cells of the grid around it the target
reports a bound if the edge is closer than the limit.  The bound is below the limit, and `Near`
says how far above the distance of the edge it may be. -/
def Measure.Bounds (μ : Measure) (Near : Chord → Chord → Prop) (x : Index) (D : EdgeRef → Chord)
    (r : EdgeRef) (cell : IndexCell) : Prop :=
  r ∈ x.edgesOf cell ∧ ∀ level ≤ cell.id.level, ∀ m, D r < m →
    ∃ v < m, Near v (D r) ∧ μ.toCell (Cell.ofId (cell.id.parentAt level)) m = some v

namespace Search

/-- How far a reported distance may be above the true one.  A simple target reports no more than
that, and an index may exceed it by the allowance for error. -/
def Target.Near (t : Target) (err v d : Chord) : Prop :=
  match t with
  | site _ => v ≤ d
  | index _ => v - err ≤ d

/-- With an allowance for error, an index as a target makes use of it, and a simple target does
not. -/
lemma Target.isApproximate_request_of_pos {t : Target} {x : Index} {settings : Settings}
    {threshold : ℕ} (herr : Chord.zero < settings.maxError) :
    (t.request x settings threshold).isApproximate =
      match t with
      | site _ => false
      | index _ => true := by
  simp only [request]
  rw [if_pos herr]
  cases t <;> rfl

/-! ### Reaching edges -/

/-- A result for the edge was offered that is too far away by at most the allowance for error, or
the limit has fallen to the distance of the edge. -/
def Reached (err : Chord) (D : EdgeRef → Chord) (S : Finset Result) (limit : Chord)
    (r : EdgeRef) : Prop :=
  (∃ a ∈ S, r.HasPlace a ∧ a.distance - err ≤ D r) ∨ limit ≤ D r

lemma Reached.mono {err limit limit' : Chord} {D : EdgeRef → Chord} {S S' : Finset Result}
    {r : EdgeRef} (hS : S ⊆ S') (hlimit : limit' ≤ limit) (h : Reached err D S limit r) :
    Reached err D S' limit' r :=
  h.imp (fun ⟨a, ha, hplace⟩ => ⟨a, hS ha, hplace⟩) hlimit.trans

/-- The distances that are reported for edges are too large by at most the allowance for error. -/
structure Plan.Approximate (p : Plan) (err : Chord) (D : EdgeRef → Chord) : Prop where
  allowance : err.Allowance
  zero_le : ∀ r ∈ p.index.edges, Chord.zero ≤ D r
  eq_of_place : ∀ r ∈ p.index.edges, ∀ r' ∈ p.index.edges, r.shapeId = r'.shapeId →
    r.edgeId = r'.edgeId → r = r'
  le_of_eq_none : ∀ r ∈ p.index.edges, ∀ m, p.measure.toEdge r.edge m = none → m ≤ D r
  of_eq_some : ∀ r ∈ p.index.edges, ∀ m v, p.measure.toEdge r.edge m = some v →
    v < m ∧ v - err ≤ D r

/-- The edges in `E`, and those that were met, have been reached. -/
def Plan.AllReached (p : Plan) (err M : Chord) (D : EdgeRef → Chord) (k : ℕ) (s : State)
    (E : Set EdgeRef) : Prop :=
  ∃ S, s.found.Serves k err M S ∧ ∀ r ∈ p.index.edges,
    r ∈ E ∨ (r.shapeId, r.edgeId) ∈ s.met → Reached err D S s.found.limit r

namespace Plan.Approximate

variable {p : Plan} {err M : Chord} {D : EdgeRef → Chord} {k : ℕ} {s : State} {S : Finset Result}
  {E : Set EdgeRef} {r : EdgeRef} (hp : p.Approximate err D)

include hp

/-- An edge that is measured is reached, and the limit does not rise. -/
lemma reached_measureEdge (hr : r ∈ p.index.edges) (h : s.found.Serves k err M S) :
    ∃ S', S ⊆ S' ∧ (p.measureEdge s r).found.Serves k err M S' ∧
      (p.measureEdge s r).found.limit ≤ s.found.limit ∧
      Reached err D S' (p.measureEdge s r).found.limit r := by
  simp only [Plan.measureEdge]
  split
  · rename_i v hv
    obtain ⟨hlt, hnear⟩ := hp.of_eq_some r hr _ v hv
    have h' : (s.found.add ⟨v, r.shapeId, r.edgeId⟩).Serves k err M
        (insert ⟨v, r.shapeId, r.edgeId⟩ S) :=
      h.add (hlt.trans_le (h.limit_le fun _ => hp.allowance.sub_le))
    exact ⟨_, Finset.subset_insert _ S, h',
      h.limit_le_limit hp.allowance h' (Finset.subset_insert _ S),
      Or.inl ⟨_, Finset.mem_insert_self _ S, ⟨rfl, rfl⟩, hnear⟩⟩
  · rename_i hnone
    exact ⟨S, Finset.Subset.refl S, h, le_refl _, Or.inr (hp.le_of_eq_none r hr _ hnone)⟩

/-- Measuring an edge reaches it and no less than what was reached before, whether the edge counts
as met from then on or not. -/
lemma allReached_measureEdge (hr : r ∈ p.index.edges) (h : p.AllReached err M D k s E)
    {met : List (ℕ × ℕ)} (hmet : ∀ id ∈ met, id = (r.shapeId, r.edgeId) ∨ id ∈ s.met) :
    p.AllReached err M D k (p.measureEdge { s with met := met } r) (insert r E) := by
  obtain ⟨S, h, hreached⟩ := h
  obtain ⟨S', hS, h', hlimit, hnew⟩ := hp.reached_measureEdge (s := { s with met := met }) hr h
  refine ⟨S', h', ?_⟩
  intro e he hdealt
  rw [met_measureEdge, Set.mem_insert_iff] at hdealt
  rcases hdealt with (rfl | hE) | hid
  · exact hnew
  · exact (hreached e he (Or.inl hE)).mono hS hlimit
  · rcases hmet _ hid with hid | hid
    · -- An edge is met under its place, and no other edge has the same one.
      obtain ⟨hshape, hedge⟩ := Prod.mk.inj hid
      exact hp.eq_of_place e he r hr hshape hedge ▸ hnew
    · exact (hreached e he (Or.inr hid)).mono hS hlimit

/-- **One edge.**  An edge that is offered is measured now, or it was met before. -/
lemma allReached_offer (hr : r ∈ p.index.edges) (h : p.AllReached err M D k s E) :
    p.AllReached err M D k (p.offer s r) (insert r E) := by
  simp only [Plan.offer]
  split
  · split
    · rename_i hmet
      obtain ⟨S, h, hreached⟩ := h
      refine ⟨S, h, ?_⟩
      intro e he hdealt
      rw [Set.mem_insert_iff] at hdealt
      rcases hdealt with (rfl | hE) | hid
      · exact hreached e he (Or.inr (List.contains_iff_mem.1 hmet))
      · exact hreached e he (Or.inl hE)
      · exact hreached e he (Or.inr hid)
    · exact hp.allReached_measureEdge hr h fun id hid => List.mem_cons.1 hid
  · exact hp.allReached_measureEdge hr h fun id hid => Or.inr hid

/-- The account of a search with an allowance for error.  A bound is fair to an edge if it is not
above the distance of the edge, or if nothing is left of the first limit once it has fallen. -/
def ledger (k : ℕ) (M : Chord) : p.Ledger where
  first := M
  Dealt := p.AllReached err M D k
  Fair r d := d ≤ D r ∨ d < M ∧ M - err ≤ Chord.zero
  limit_le := by
    rintro s E ⟨S, h, -⟩
    exact h.limit_le fun _ => hp.allowance.sub_le
  requeue _ h := h
  offer hr h := hp.allReached_offer hr h
  leave := by
    rintro s E ⟨S, h, hreached⟩
    refine ⟨S, h, ?_⟩
    rintro r hr ((hE | ⟨d, hd | ⟨hlt, hzero⟩, hlimit⟩) | hmet)
    · exact hreached r hr (Or.inl hE)
    · exact Or.inr (hlimit.trans hd)
    · exact Or.inr ((h.limit_le_sub hp.allowance (hlimit.trans_lt hlt)).trans
        (hzero.trans (hp.zero_le r hr)))
    · exact hreached r hr (Or.inr hmet)

end Plan.Approximate

/-! ### Whole searches -/

namespace Request

variable {q : Request} {D : EdgeRef → Chord}

/-- Unless there is nothing left to be found, the shapes around the target leave the limit where it
was. -/
lemma limit_interiors (hM : Chord.zero < q.settings.maxDistance)
    (herr : q.settings.maxError.Allowance)
    (hdone : (q.settings.includeInteriors && Plan.isDone q.interiors) = false) :
    q.interiors.limit = q.settings.maxDistance := by
  rcases (serves_interiors hM).limit_cases herr with ⟨-, hlimit⟩ | ⟨-, worst, -, hworst, hlimit⟩
  · exact hlimit
  · -- A full collector has a shape around the target for its worst result, at no distance.
    obtain ⟨hinteriors, id, -, rfl⟩ := mem_interiorAnswers.1 hworst
    rw [hinteriors, Bool.true_and] at hdone
    have hle : q.interiors.limit ≤ Chord.zero := hlimit.trans_le (herr.sub_le _)
    exact absurd hle (of_decide_eq_false hdone)

/-- What the target bounds, it shows, whether bounds are reduced or not. -/
lemma shows_of_bounds {limit : Chord} (hp : (q.plan limit).Approximate q.settings.maxError D)
    (hlimit : limit = q.settings.maxDistance) {Near : Chord → Chord → Prop}
    (hnear : ∀ v d, Near v d → if q.isApproximate then v - q.settings.maxError ≤ d else v ≤ d)
    {r : EdgeRef} {cell : IndexCell} (h : q.measure.Bounds Near q.index D r cell) :
    (hp.ledger q.settings.maxResults q.settings.maxDistance).Shows r cell := by
  refine ⟨h.1, ?_⟩
  intro level hlevel m hm
  rcases lt_or_ge (D r) m with hlt | hle
  · obtain ⟨v, hv, hle, hsome⟩ := h.2 level hlevel m hlt
    have hle := hnear v (D r) hle
    refine Or.inl ⟨v, hsome, ?_⟩
    show (q.plan limit).reduce v ≤ D r ∨ (q.plan limit).reduce v < q.settings.maxDistance ∧ _
    simp only [Plan.reduce, plan, slack?]
    cases happrox : q.isApproximate with
    | false =>
      rw [happrox] at hle
      exact Or.inl hle
    | true =>
      rw [happrox] at hle
      split
      · rename_i error hslack
        split at hslack
        · rw [← Option.some.inj hslack]
          exact Or.inl hle
        · exact absurd hslack (by simp)
      · rename_i hslack
        split at hslack
        · exact absurd hslack (by simp)
        · -- Bounds are not reduced, since that would leave nothing of the first limit.
          rename_i hcond
          rw [hlimit, Bool.true_and, Bool.or_eq_true, decide_eq_true_iff, decide_eq_true_iff,
            not_or, not_lt] at hcond
          exact Or.inr ⟨hv.trans_le hm, hcond.2⟩
  · exact Or.inr ⟨D r, Or.inl (le_refl _), hle⟩

/-- **All edges are reached**, whichever way the search goes. -/
theorem exists_reached {Near : Chord → Chord → Prop} (hx : q.index.WellFormed)
    (hM : Chord.zero < q.settings.maxDistance)
    (hp : (q.plan q.interiors.limit).Approximate q.settings.maxError D)
    (hnear : ∀ v d, Near v d → if q.isApproximate then v - q.settings.maxError ≤ d else v ≤ d)
    (hcells : q.usesBruteForce = false → q.measure.cap.isEmpty = false ∧
      ∀ r ∈ q.index.edges, ∃ cell ∈ q.index.cells, q.measure.Bounds Near q.index D r cell) :
    ∃ (c : Collector) (S : Finset Result), q.run = c.results ∧
      c.Serves q.settings.maxResults q.settings.maxError q.settings.maxDistance S ∧
      ∀ r ∈ q.index.edges, Reached q.settings.maxError D S c.limit r := by
  have hserves := serves_interiors hM
  let L := hp.ledger q.settings.maxResults q.settings.maxDistance
  have hstart : L.Dealt ⟨q.interiors, [], .empty⟩ ∅ :=
    ⟨q.interiorAnswers, hserves, by simp⟩
  rw [run_eq hM]
  split
  · -- The limit has fallen to zero before any edge was measured.
    rename_i hdone
    have hle : q.interiors.limit ≤ Chord.zero :=
      of_decide_eq_true (Bool.and_eq_true_iff.1 hdone).2
    exact ⟨_, _, rfl, hserves, fun r hr => Or.inr (hle.trans (hp.zero_le r hr))⟩
  · rename_i hdone
    have hlimit := limit_interiors hM hp.allowance (Bool.not_eq_true _ ▸ hdone)
    cases hbrute : q.usesBruteForce with
    | true =>
      obtain ⟨E, -, ⟨S, hS, hreached⟩, hall⟩ := L.foldl_offer (fun _ hr => hr) hstart
      exact ⟨_, S, rfl, hS, fun r hr => hreached r hr (Or.inl (hall r hr))⟩
    | false =>
      obtain ⟨hcap, hbounds⟩ := hcells hbrute
      have hfair : ∀ r ∈ q.index.edges, ∃ d, L.Fair r d ∧ Chord.zero ≤ d :=
        fun r hr => ⟨D r, Or.inl (le_refl _), hp.zero_le r hr⟩
      have hshows : ∀ r ∈ q.index.edges, ∃ cell ∈ q.index.cells, L.Shows r cell := by
        intro r hr
        obtain ⟨cell, hcell, hbound⟩ := hbounds r hr
        exact ⟨cell, hcell, shows_of_bounds hp hlimit hnear hbound⟩
      obtain ⟨E, ⟨S, hS, hreached⟩, hall⟩ := L.bestFirst hx hcap hfair hshows hstart
      exact ⟨_, S, rfl, hS, fun r hr => hreached r hr (Or.inl (hall r hr))⟩

end Request

namespace Collector.Serves

variable {k : ℕ} {err M : Chord} {c : Collector} {S : Finset Result} {D : EdgeRef → Chord}
  {r : EdgeRef} (h : c.Serves k err M S) (herr : err.Allowance)
  (hr : Reached err D S c.limit r)

include h herr hr

/-- If there are fewer results than wanted, then an edge within the first limit that was reached
is among them. -/
lemma exists_hasPlace (hlen : c.results.length < k) (hM : D r < M) :
    ∃ a ∈ c.results, r.HasPlace a := by
  rw [h.results_eq] at hlen ⊢
  rcases hr with ⟨a, ha, hplace, -⟩ | hlimit
  · exact ⟨a, mem_firstOf_of_length_lt ((Finset.mem_sort _).2 ha) hlen, hplace⟩
  · rcases h.limit_cases herr with ⟨-, hfirst⟩ | ⟨hfull, -⟩
    · exact absurd hM (not_lt.2 (hfirst.symm.trans_le hlimit))
    · -- The limit of a full collector may be there, but a full collector has enough results.
      rw [firstOf, if_neg hfull.1, length_take_sort, Nat.min_eq_left hfull.2] at hlen
      exact absurd hlen (lt_irrefl k)

/-- An edge that was reached and is not among the results is closer than none of them by more than
the allowance for error. -/
lemma sub_le_of_reached {worst : Result} (hworst : worst ∈ c.results)
    (hout : ∀ a ∈ c.results, ¬ r.HasPlace a) : worst.distance - err ≤ D r := by
  rcases hr with ⟨a, ha, hplace, hnear⟩ | hlimit
  · have hnot : a ∉ c.results := fun hmem => hout a hmem hplace
    rw [h.results_eq] at hworst hnot
    exact (herr.sub_le_sub _ _ (Result.distance_le (le_of_notMem_firstOf ha hnot hworst))).trans
      hnear
  · exact (h.sub_le_limit herr hworst).trans hlimit

end Collector.Serves

/-- **The accuracy of a search.**  Suppose that edges have true distances, of which the target
reports those below the limit, simple targets exactly and an index with the allowance for error,
and that, if the search goes by cells, every edge is listed by an index cell for which the target
bounds the distance of the edge in the same way, as for all cells of the grid around it.  Then no
edge that is not among the results is closer than one of them by more than the allowance, and if
there are fewer results than wanted, all edges within the limit are among them. -/
theorem Target.search_accurate (t : Target) (shapes : List Shape)
    (indexSettings : Index.Settings) (settings : Settings) (threshold : ℕ) (D : EdgeRef → Chord)
    (hM : Chord.zero < settings.maxDistance) (herr : settings.maxError.Allowance)
    (hzero : ∀ r ∈ EdgeRef.all shapes, Chord.zero ≤ D r)
    (hedges : ∀ r ∈ EdgeRef.all shapes,
      (t.request (Index.build shapes indexSettings) settings threshold).measure.Gauges
        (t.Near settings.maxError) D r)
    (hcells :
      let x := Index.build shapes indexSettings
      let q := t.request x settings threshold
      q.usesBruteForce = false → q.measure.cap.isEmpty = false ∧ ∀ r ∈ EdgeRef.all shapes,
        ∃ cell ∈ x.cells, q.measure.Bounds (t.Near settings.maxError) x D r cell) :
    let results := t.search (Index.build shapes indexSettings) settings threshold
    (results.length < settings.maxResults → ∀ r ∈ EdgeRef.all shapes, D r < settings.maxDistance →
      ∃ a ∈ results, r.HasPlace a) ∧
    ∀ worst ∈ results, ∀ r ∈ EdgeRef.all shapes, (∀ a ∈ results, ¬ r.HasPlace a) →
      worst.distance - settings.maxError ≤ D r := by
  intro results
  let q := t.request (Index.build shapes indexSettings) settings threshold
  have hnear : ∀ v d, t.Near settings.maxError v d →
      if q.isApproximate then v - settings.maxError ≤ d else v ≤ d := by
    intro v d h
    rw [isApproximate_request_of_pos herr.pos]
    cases t with
    | site s => exact h
    | index t => exact h
  have hp : (q.plan q.interiors.limit).Approximate settings.maxError D := by
    refine ⟨herr, hzero, fun r hr r' hr' => EdgeRef.eq_of_mem_all hr hr', ?_, ?_⟩
    · intro r hr m hnone
      rw [← not_lt, ← (hedges r hr).isSome_iff m, Bool.not_eq_true, Option.isSome_eq_false_iff]
      exact Option.isNone_iff_eq_none.2 hnone
    · intro r hr m v hv
      obtain ⟨-, hlt, hle⟩ := (hedges r hr).of_eq_some m v hv
      refine ⟨hlt, ?_⟩
      cases t with
      | site s => exact (herr.sub_le v).trans hle
      | index t => exact hle
  obtain ⟨c, S, hrun, hserves, hreached⟩ := Request.exists_reached (q := q)
    (Index.wellFormed_buildWith _ shapes indexSettings) hM hp hnear hcells
  have hresults : results = c.results := hrun
  rw [hresults]
  exact ⟨fun hlen r hr hlt => hserves.exists_hasPlace herr (hreached r hr) hlen hlt,
    fun worst hworst r hr hout => hserves.sub_le_of_reached herr (hreached r hr) hworst hout⟩

/-- A simple target is asked the same things with an allowance for error as without. -/
lemma Target.measure_request_site (s : Site) (x : Index) (settings : Settings) (threshold : ℕ) :
    ((Target.site s).request x settings threshold).measure = s.measure := by
  simp only [request]
  split <;> rfl

/-- What a point can say of the points at the poles. -/
lemma gauges_polarShapes {r : EdgeRef} (hr : r ∈ EdgeRef.all polarShapes) (err : Chord) :
    (Site.point Point.north).measure.Gauges ((Target.site (.point Point.north)).Near err)
      (fun r => Chord.between Point.north r.edge.start) r := by
  have hcloser : (Site.point Point.north).measure.toEdge r.edge =
      Closer.ofChord (Chord.between Point.north r.edge.start) := closerPoint?_polarShapes r hr
  refine ⟨fun m => ?_, fun m v hv => ?_⟩
  · rw [hcloser, Closer.ofChord]
    split <;> simp [*]
  · rw [hcloser] at hv
    obtain ⟨hlt, rfl⟩ := Closer.eq_some_of_ofChord hv
    exact ⟨le_refl _, hlt, le_refl (Chord.between Point.north r.edge.start)⟩

/-- The bounds on the faces at the poles are not above the distances of the points there. -/
lemma bounds_polarShapes {r : EdgeRef} (hr : r ∈ EdgeRef.all polarShapes) (err : Chord) :
    ∃ cell ∈ (Index.build polarShapes ⟨10, 0, by decide, by decide⟩).cells,
      (Site.point Point.north).measure.Bounds ((Target.site (.point Point.north)).Near err)
        (Index.build polarShapes ⟨10, 0, by decide, by decide⟩)
        (fun r => Chord.between Point.north r.edge.start) r cell := by
  obtain ⟨cell, hcell, hlists, hbounds⟩ := shows_polarShapes r hr
  refine ⟨cell, hcell, hlists, ?_⟩
  intro level hlevel m hm
  obtain ⟨v, hv, hsome⟩ := hbounds level hlevel m hm
  exact ⟨v, hv.trans_lt hm, hv, hsome⟩

/-- When every error is allowed, the search by cells may take any two of the points at the
poles. -/
theorem Target.search_accurate_polar :
    let x := Index.build polarShapes ⟨10, 0, by decide, by decide⟩
    let t := Target.site (.point Point.north)
    let settings := { Settings.default with
      maxResults := 2, maxResults_pos := by decide, maxError := Chord.straight }
    let D := fun r : EdgeRef => Chord.between Point.north r.edge.start
    let results := t.search x settings 0
    Chord.zero < settings.maxDistance ∧ settings.maxError.Allowance ∧
      t.measure.cap.isEmpty = false ∧
      (results.length < 2 → ∀ r ∈ EdgeRef.all polarShapes, D r < Chord.infinity →
        ∃ a ∈ results, r.HasPlace a) ∧
      ∀ worst ∈ results, ∀ r ∈ EdgeRef.all polarShapes, (∀ a ∈ results, ¬ r.HasPlace a) →
        worst.distance - Chord.straight ≤ D r := by
  intro x t settings D results
  have hcap : t.measure.cap.isEmpty = false := by decide +kernel
  have hM : Chord.zero < settings.maxDistance := by decide
  have hmeasure := measure_request_site (.point Point.north) x settings 0
  refine ⟨hM, Chord.allowance_straight, hcap, ?_⟩
  exact search_accurate t polarShapes _ settings 0 D hM Chord.allowance_straight
    (fun r _ => Chord.zero_le_between _ _) (hmeasure ▸ fun r hr => gauges_polarShapes hr _)
    (fun _ => hmeasure ▸ ⟨hcap, fun r hr => bounds_polarShapes hr _⟩)

/-- **Closer edges may be left out.**  A search for one point that may be off by any error keeps
the first that it measures, and that is the one farthest away. -/
theorem Target.exists_lt_of_search :
    let x := Index.build polarShapes ⟨10, 0, by decide, by decide⟩
    let t := Target.site (.point Point.north)
    let settings := { Settings.default with
      maxResults := 1, maxResults_pos := by decide, maxError := Chord.straight }
    let D := fun r : EdgeRef => Chord.between Point.north r.edge.start
    let results := t.search x settings unlimited
    Chord.zero < settings.maxDistance ∧ settings.maxError.Allowance ∧
      (∀ r ∈ EdgeRef.all polarShapes, Chord.zero ≤ D r) ∧
      (∀ r ∈ EdgeRef.all polarShapes, (t.request x settings unlimited).measure.Gauges
        (t.Near settings.maxError) D r) ∧
      t.measure.cap.isEmpty = false ∧
      (∀ r ∈ EdgeRef.all polarShapes, ∃ cell ∈ x.cells,
        (t.request x settings unlimited).measure.Bounds (t.Near settings.maxError) x D r cell) ∧
      results.length = 1 ∧ ∃ worst ∈ results, ∃ r ∈ EdgeRef.all polarShapes,
        (∀ a ∈ results, ¬ r.HasPlace a) ∧ D r < worst.distance := by
  intro x t settings D results
  have hresults : results = [⟨Chord.straight, 0, 0⟩] := by decide +kernel
  rw [measure_request_site (.point Point.north) x settings unlimited]
  refine ⟨by decide, Chord.allowance_straight, fun r _ => Chord.zero_le_between _ _,
    fun r hr => gauges_polarShapes hr _, by decide +kernel, fun r hr => bounds_polarShapes hr _,
    ?_⟩
  rw [hresults]
  refine ⟨rfl, _, List.mem_singleton_self _, ⟨0, 1, .degenerate Point.north⟩, ?_, ?_, ?_⟩
  · exact EdgeRef.mem_all.2 ⟨_, rfl, rfl⟩
  · intro a ha hplace
    rw [List.mem_singleton.1 ha] at hplace
    exact absurd hplace.2 (by decide)
  · show Chord.between Point.north Point.north < Chord.straight
    decide +kernel

end Search

end SphereSearch
