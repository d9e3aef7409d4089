import SphereSearch.Proofs.Search.Accuracy
import SphereSearch.Proofs.Search.Nested
import SphereSearch.Proofs.Sphere.Widening

/-!
# Is anything closer?

A query that asks whether anything is closer than a limit stops at the first edge it finds, and it
lets an index as a target answer with any edge.  No edge within the limit is missed by that
(`Target.search_ne_nil_iff`), so that the answer agrees with the distance that another query
measures, and so do the answers for limits that admit a distance or are widened by its error
(`Query.isDistanceLess_iff_distance_lt`).  The distance has to be measured to the target without an
allowance of its own, since this question replaces the allowance of an index and measuring the
distance does not (`Query.exists_isDistanceLess_ne`).
-/

namespace SphereSearch.Search

/-- The target with an error that its distances may have, if it is of a kind that can use one. -/
def Target.withMaxError (t : Target) (err : Chord) : Target := (t.withMaxError? err).getD t

/-- Given the error, the target reports a distance for an edge exactly if the edge is closer than
the limit, and every edge is listed by an index cell such that the target reports a bound for this
cell, and for the cells of the grid around it, if the edge is closer than the limit.  What it
reports is below the limit, and without an error it is the distance of the edge, or not above
it. -/
structure Target.Reports (t : Target) (x : Index) (D : EdgeRef → Chord) (err : Chord) : Prop where
  isSome_iff : ∀ r ∈ x.edges, ∀ m, ((t.withMaxError err).measure.toEdge r.edge m).isSome ↔ D r < m
  of_eq_some : ∀ r ∈ x.edges, ∀ m v, (t.withMaxError err).measure.toEdge r.edge m = some v →
    v < m ∧ (err = Chord.zero → v = D r)
  bounds : ∀ r ∈ x.edges, ∃ cell ∈ x.cells,
    (t.withMaxError err).measure.Bounds (fun v d => err = Chord.zero → v ≤ d) x D r cell

namespace Target.Reports

variable {t : Target} {x : Index} {D : EdgeRef → Chord}

/-- Without an error, an edge has one distance. -/
lemma toEdge_eq (h : t.Reports x D Chord.zero) {r : EdgeRef} (hr : r ∈ x.edges) :
    (t.withMaxError Chord.zero).measure.toEdge r.edge = Closer.ofChord (D r) := by
  funext m
  rw [Closer.ofChord]
  by_cases hlt : D r < m
  · obtain ⟨v, hv⟩ := Option.isSome_iff_exists.1 ((h.isSome_iff r hr m).2 hlt)
    rw [if_pos hlt, hv, (h.of_eq_some r hr m v hv).2 rfl]
  · rw [if_neg hlt, ← Option.isNone_iff_eq_none, ← Option.isSome_eq_false_iff, Bool.eq_false_iff]
    exact fun hsome => hlt ((h.isSome_iff r hr m).1 hsome)

lemma zero_le (h : t.Reports x D Chord.zero) {r : EdgeRef} (hr : r ∈ x.edges) :
    Chord.zero ≤ D r := by
  rcases lt_or_eq_of_le (Chord.le_infinity (D r)) with hlt | heq
  · refine Target.zero_le_of_toEdge (t := t.withMaxError Chord.zero) (e := r.edge)
      (m := Chord.infinity) ?_
    rw [h.toEdge_eq hr]
    exact if_pos hlt
  · rw [heq]
    decide

/-- Without an error, the target shows every edge. -/
lemma shows (h : t.Reports x D Chord.zero) {r : EdgeRef} (hr : r ∈ x.edges) :
    ∃ cell ∈ x.cells, (t.withMaxError Chord.zero).measure.Shows x D r cell := by
  obtain ⟨cell, hcell, hlists, hbounds⟩ := h.bounds r hr
  refine ⟨cell, hcell, hlists, ?_⟩
  intro level hlevel m hm
  obtain ⟨v, -, hv, hsome⟩ := hbounds level hlevel m hm
  exact ⟨v, hv rfl, hsome⟩

end Target.Reports

/-! ### The first result -/

/-- Nothing is found where there are no shapes around the target and no edge is closer than the
first limit. -/
lemma Request.run_eq_nil {q : Request} (hx : q.index.WellFormed)
    (hinterior : q.settings.includeInteriors = true → q.containing q.settings.maxResults = [])
    (hnone : ∀ r ∈ q.index.edges, q.measure.toEdge r.edge q.settings.maxDistance = none) :
    q.run = [] := by
  let empty := Collector.empty q.settings.maxResults q.settings.maxError q.settings.maxDistance
  have hstart : q.interiors = empty := by
    simp only [interiors]
    split
    · rename_i hon
      rw [hinterior hon]
      rfl
    · rfl
  have hempty : empty.results = [] := by
    rw [(Collector.Serves.empty q.settings.maxResults_pos q.settings.maxError
      q.settings.maxDistance).results_eq, Finset.sort_empty, firstOf]
    split
    · rfl
    · exact List.take_nil
  have hsearched : ∀ limit, (if q.usesBruteForce then (q.plan limit).bruteForce empty
      else (q.plan limit).bestFirst empty) = empty := by
    intro limit
    refine searched_induction (motive := fun c => c = empty) (fun r hr s hs => ?_) rfl
    refine Plan.measureEdge_induction (motive := fun c => c = empty) hs fun d hd => ?_
    have hnone : (q.plan limit).measure.toEdge r.edge s.found.limit = none := by
      rw [hs]
      exact hnone r (hx.mem_edges_of_lists hr)
    rw [hnone] at hd
    cases hd
  rcases le_or_gt q.settings.maxDistance Chord.zero with hM | hM
  · exact run_of_le_zero hM
  · rw [run_eq hM, hstart, hsearched, hempty, ite_self]

/-- A collector of one result that was offered any has kept one. -/
lemma Collector.Serves.results_ne_nil {err M : Chord} {c : Collector} {S : Finset Result}
    (h : c.Serves 1 err M S) {r : Result} (hr : r ∈ S) : c.results ≠ [] := by
  rw [h.results_eq]
  rcases firstOf_one_cases S with ⟨rfl, -⟩ | ⟨a, -, hone⟩
  · exact absurd hr (Finset.notMem_empty r)
  · rw [hone]
    exact List.cons_ne_nil _ _

/-- If there is a shape around the target, then it is all that is found. -/
lemma Request.run_ne_nil_of_interior {q : Request} (hM : Chord.zero < q.settings.maxDistance)
    (herr : q.settings.maxError.Allowance) (hone : q.settings.maxResults = 1)
    (hon : q.settings.includeInteriors = true) (hcont : q.containing 1 ≠ []) : q.run ≠ [] := by
  obtain ⟨id, hid⟩ := List.exists_mem_of_ne_nil _ hcont
  have hmem : Result.interior (id : ℕ) ∈ q.interiorAnswers :=
    mem_interiorAnswers.2 ⟨hon, id, hone.symm ▸ hid, rfl⟩
  have hserves := serves_interiors hM
  rw [hone] at hserves
  have hdone : Plan.isDone q.interiors = true := by
    rcases hserves.limit_cases herr with ⟨hnot, -⟩ | ⟨-, worst, -, hworst, hlimit⟩
    · exact absurd ⟨by decide, Finset.card_pos.2 ⟨_, hmem⟩⟩ hnot
    · obtain ⟨-, other, -, rfl⟩ := mem_interiorAnswers.1 hworst
      exact decide_eq_true (hlimit.trans_le (herr.sub_le _))
  rw [run_eq hM, hon, hdone, Bool.and_true, if_pos rfl]
  exact hserves.results_ne_nil hmem

variable {t : Target} {shapes : List Shape} {indexSettings : Index.Settings}
  {settings : Settings} {threshold : ℕ} {D : EdgeRef → Chord}

/-- What a target reports when any error is allowed is near enough. -/
lemma Target.Reports.bounds_near {x : Index} (hzero : t.Reports x D Chord.zero)
    (hstraight : t.Reports x D Chord.straight) {r : EdgeRef} (hr : r ∈ x.edges) :
    ∃ cell ∈ x.cells, (t.withMaxError Chord.straight).measure.Bounds
      (t.Near Chord.straight) x D r cell := by
  cases t with
  | site s =>
    obtain ⟨cell, hcell, hlists, hbounds⟩ := hzero.bounds r hr
    refine ⟨cell, hcell, hlists, ?_⟩
    intro level hlevel m hm
    obtain ⟨v, hv, hle, hsome⟩ := hbounds level hlevel m hm
    exact ⟨v, hv, hle rfl, hsome⟩
  | index t =>
    obtain ⟨cell, hcell, hlists, hbounds⟩ := hstraight.bounds r hr
    refine ⟨cell, hcell, hlists, ?_⟩
    intro level hlevel m hm
    obtain ⟨v, hv, -, hsome⟩ := hbounds level hlevel m hm
    have hnear : v - Chord.straight ≤ Chord.zero :=
      Chord.sub_straight_le_zero (hv.trans_le (Chord.le_infinity m))
    exact ⟨v, hv, hnear.trans (hzero.zero_le hr), hsome⟩

/-- **The first result.**  A search for one result that allows any error finds something exactly
if there is something to be found. -/
theorem Target.search_ne_nil_iff (settings : Settings) (threshold : ℕ)
    (hone : settings.maxResults = 1) (herr : settings.maxError = Chord.straight)
    (hcap : t.measure.cap.isEmpty = false)
    (hzero : t.Reports (Index.build shapes indexSettings) D Chord.zero)
    (hstraight : t.Reports (Index.build shapes indexSettings) D Chord.straight) :
    t.search (Index.build shapes indexSettings) settings threshold ≠ [] ↔
      (settings.includeInteriors = true ∧
        t.containing (Index.build shapes indexSettings) 1 ≠ [] ∧
        Chord.zero < settings.maxDistance) ∨
      ∃ r ∈ (Index.build shapes indexSettings).edges, D r < settings.maxDistance := by
  have hx : (Index.build shapes indexSettings).WellFormed :=
    Index.wellFormed_buildWith _ shapes indexSettings
  let q := t.request (Index.build shapes indexSettings) settings threshold
  have hpos : settings.maxError > Chord.zero := by
    rw [herr]
    decide
  have hmeasure : q.measure = (t.withMaxError Chord.straight).measure := by
    show ((if settings.maxError > Chord.zero then t.withMaxError? settings.maxError
      else none).getD t).measure = _
    rw [if_pos hpos, herr]
    rfl
  have hcap' : q.measure.cap.isEmpty = false := by
    rw [hmeasure]
    cases t <;> exact hcap
  have hallowance : q.settings.maxError.Allowance := herr.symm ▸ Chord.allowance_straight
  show q.run ≠ [] ↔ _
  constructor
  · -- Otherwise nothing is measured to be within the limit.
    intro hrun
    by_contra hnothing
    rw [not_or] at hnothing
    rcases le_or_gt settings.maxDistance Chord.zero with hM | hM
    · exact hrun (Request.run_of_le_zero hM)
    · refine hrun (Request.run_eq_nil (q := q) hx ?_ ?_)
      · intro hon
        by_contra hcont
        exact hnothing.1 ⟨hon, hone ▸ hcont, hM⟩
      · intro r hr
        rw [hmeasure, ← Option.isNone_iff_eq_none, ← Option.isSome_eq_false_iff,
          Bool.eq_false_iff]
        intro hsome
        exact hnothing.2 ⟨r, hr, (hstraight.isSome_iff r hr _).1 hsome⟩
  · rintro (⟨hon, hcont, hM⟩ | ⟨r, hr, hlt⟩)
    · exact Request.run_ne_nil_of_interior (q := q) hM hallowance hone hon hcont
    · -- With any error allowed, whatever is reported is near enough to count as exact.
      have hM : Chord.zero < settings.maxDistance := (hzero.zero_le hr).trans_lt hlt
      have hnear : ∀ v d, t.Near Chord.straight v d →
          if q.isApproximate then v - settings.maxError ≤ d else v ≤ d := by
        intro v d h
        rw [isApproximate_request_of_pos hpos, herr]
        cases t with
        | site s => exact h
        | index t => exact h
      have hp : (q.plan q.interiors.limit).Approximate q.settings.maxError D := by
        refine ⟨hallowance, fun r hr => hzero.zero_le hr,
          fun r hr r' hr' => EdgeRef.eq_of_mem_all hr hr', ?_, ?_⟩
        · intro r hr m hnone
          have hnone : (t.withMaxError Chord.straight).measure.toEdge r.edge m = none :=
            hmeasure ▸ hnone
          rw [← not_lt, ← hstraight.isSome_iff r hr m, hnone]
          exact Bool.false_ne_true
        · intro r hr m v hv
          have hv : (t.withMaxError Chord.straight).measure.toEdge r.edge m = some v :=
            hmeasure ▸ hv
          obtain ⟨hlt, -⟩ := hstraight.of_eq_some r hr m v hv
          have hnear : v - Chord.straight ≤ Chord.zero :=
            Chord.sub_straight_le_zero (hlt.trans_le (Chord.le_infinity m))
          exact ⟨hlt, herr.symm ▸ hnear.trans (hzero.zero_le hr)⟩
      obtain ⟨c, S, hrun, hserves, hreached⟩ := Request.exists_reached (q := q) hx hM hp hnear
        fun _ => ⟨hcap', fun r hr => hmeasure ▸ hzero.bounds_near hstraight hr⟩
      rw [hrun]
      intro hnil
      have hlen : c.results.length < q.settings.maxResults := by
        rw [hnil]
        exact q.settings.maxResults_pos
      obtain ⟨a, ha, -⟩ := hserves.exists_hasPlace hallowance (hreached r hr) hlen hlt
      rw [hnil] at ha
      exact absurd ha List.not_mem_nil

/-! ### Agreement with the distance -/

/-- Whether anything is closer than a limit agrees with the distance. -/
lemma Query.anyCloser_iff (herr : settings.maxError = Chord.zero)
    (hM : settings.maxDistance = Chord.infinity) (hcap : t.measure.cap.isEmpty = false)
    (hzero : t.Reports (Index.build shapes indexSettings) D Chord.zero)
    (hstraight : t.Reports (Index.build shapes indexSettings) D Chord.straight) (limit : Chord) :
    let q : Query := ⟨Index.build shapes indexSettings, settings, threshold⟩
    q.anyCloser t limit = true ↔ q.distance (t.withMaxError Chord.zero) < limit := by
  intro q
  have hcap' : (t.withMaxError Chord.zero).measure.cap.isEmpty = false := by
    cases t <;> exact hcap
  have hcontaining : (t.withMaxError Chord.zero).containing q.index 1 = t.containing q.index 1 := by
    cases t <;> rfl
  obtain ⟨hmem, hle⟩ := Query.isLeast_distance (t := t.withMaxError Chord.zero) indexSettings
    settings threshold herr hM (fun r hr => hzero.toEdge_eq hr)
    fun _ => ⟨hcap', fun r hr => hzero.shows hr⟩
  have hfirst := Target.search_ne_nil_iff
    { settings with
      maxResults := 1
      maxResults_pos := Nat.one_pos
      maxDistance := limit
      maxError := Chord.straight }
    threshold rfl rfl hcap hzero hstraight
  show (!(t.search q.index _ threshold).isEmpty) = true ↔ _
  rw [Bool.not_eq_true', List.isEmpty_eq_false_iff]
  refine hfirst.trans ⟨?_, ?_⟩
  · rintro (⟨hon, hcont, hpos⟩ | ⟨r, hr, hlt⟩)
    · exact (hle (Or.inr (Or.inl ⟨hon, hcontaining.symm ▸ hcont, rfl⟩))).trans_lt hpos
    · exact (hle (Or.inr (Or.inr ⟨r, hr, rfl⟩))).trans_lt hlt
  · intro hlt
    rcases hmem with heq | ⟨hon, hcont, heq⟩ | ⟨r, hr, heq⟩
    · exact absurd (heq ▸ hlt) (not_lt.2 (Chord.le_infinity limit))
    · exact Or.inl ⟨hon, hcontaining ▸ hcont, heq ▸ hlt⟩
    · exact Or.inr ⟨r, hr, heq ▸ hlt⟩

/-- **Questions about the distance.**  If a target reports its distances reliably, whatever error
it is given, then the answers to the questions whether anything is closer than a limit, or as close
as a limit other than infinity, agree with the distance to the target without an error.  They change
with the limit only from no to yes, and a limit that is widened by the error of a distance admits
no less. -/
theorem Query.isDistanceLess_iff_distance_lt (t : Target) (shapes : List Shape)
    (indexSettings : Index.Settings) (settings : Settings) (threshold : ℕ) (D : EdgeRef → Chord)
    (herr : settings.maxError = Chord.zero) (hM : settings.maxDistance = Chord.infinity)
    (hcap : t.measure.cap.isEmpty = false)
    (hreports : ∀ err, t.Reports (Index.build shapes indexSettings) D err) :
    let q : Query := ⟨Index.build shapes indexSettings, settings, threshold⟩
    let d := q.distance (t.withMaxError Chord.zero)
    (∀ limit, q.isDistanceLess t limit = true ↔ d < limit) ∧
    (∀ limit, limit ≠ Chord.infinity → (q.isDistanceLessOrEqual t limit = true ↔ d ≤ limit)) ∧
    (∀ limit limit', limit ≤ limit' →
      (q.isDistanceLess t limit = true → q.isDistanceLess t limit' = true) ∧
      (q.isDistanceLessOrEqual t limit = true → q.isDistanceLessOrEqual t limit' = true)) ∧
    ∀ limit,
      (q.isDistanceLess t limit = true → q.isConservativeDistanceLess t limit = true) ∧
      (q.isConservativeDistanceLess t limit = true →
        q.isConservativeDistanceLessOrEqual t limit = true) := by
  intro q d
  have hiff : ∀ limit, q.anyCloser t limit = true ↔ d < limit :=
    anyCloser_iff herr hM hcap (hreports _) (hreports _)
  have hmono : ∀ limit limit', limit ≤ limit' → q.anyCloser t limit = true →
      q.anyCloser t limit' = true := by
    intro limit limit' hle hless
    exact (hiff limit').2 (((hiff limit).1 hless).trans_le hle)
  refine ⟨hiff, fun limit hlimit => ?_, fun limit limit' hle => ⟨?_, ?_⟩, fun limit => ⟨?_, ?_⟩⟩
  · exact (hiff _).trans (Chord.lt_successor_iff hlimit)
  · exact hmono _ _ hle
  · exact hmono _ _ (Chord.successor_le_successor hle)
  · exact hmono _ _ (Chord.le_widen_edgeError limit)
  · exact hmono _ _ (Chord.le_successor _)

/-! ### Indexes with an error of their own -/

/-- The collector keeps one result, which names a shape and is closer than `m`. -/
def Collector.HasOne (m : Chord) (c : Collector) : Prop :=
  ∃ a, c.kept = .one (some a) ∧ 0 ≤ a.shapeId ∧ a.distance < m

/-- A result that is kept alone is replaced by closer ones only. -/
lemma Collector.HasOne.add {m : Chord} {c : Collector} (h : c.HasOne m) {r : Result}
    (hr : 0 ≤ r.shapeId) : (c.add r).HasOne m := by
  obtain ⟨best, hkept, hshape, hlt⟩ := h
  simp only [Collector.add]
  rw [hkept]
  dsimp only
  split
  · exact ⟨best, hkept, hshape, hlt⟩
  · rename_i hgt
    have hle : r < best := compare_gt_iff_gt.1 (not_not.1 hgt)
    exact ⟨r, rfl, hr, (Result.distance_le hle.le).trans_lt hlt⟩

lemma Collector.hasOne_add {m : Chord} {c : Collector} (h : c.kept = .one none) {r : Result}
    (hr : 0 ≤ r.shapeId) (hlt : r.distance < m) : (c.add r).HasOne m := by
  simp only [Collector.add]
  rw [h]
  exact ⟨r, rfl, hr, hlt⟩

namespace Plan

variable {p : Plan} {m : Chord}

lemma hasOne_measureEdge (r : EdgeRef) (s : State) (h : s.found.HasOne m) :
    (p.measureEdge s r).found.HasOne m :=
  measureEdge_induction h fun _ _ => h.add (Int.natCast_nonneg _)

/-- The first edge that is closer than the first limit is kept, or a closer one. -/
lemma hasOne_of_exists (honce : p.once = false) {rs : List EdgeRef} {s : State}
    (hkept : s.found.kept = .one none) (hlimit : s.found.limit = m) {r : EdgeRef} (hr : r ∈ rs)
    {d : Chord} (hd : p.measure.toEdge r.edge m = some d)
    (hbelow : ∀ r ∈ rs, ∀ d, p.measure.toEdge r.edge m = some d → d < m) :
    (rs.foldl p.offer s).found.HasOne m := by
  induction rs generalizing s with
  | nil => exact absurd hr List.not_mem_nil
  | cons first rest ih =>
    -- The limit stays the first one until something is reported.
    rw [List.foldl_cons, offer_eq_measureEdge honce]
    simp only [measureEdge]
    rw [hlimit]
    cases hfirst : p.measure.toEdge first.edge m with
    | some v =>
      refine List.foldlRecOn (motive := fun s => s.found.HasOne m) rest p.offer ?_
        fun _ hs r _ => offer_induction (hasOne_measureEdge r) hs
      exact Collector.hasOne_add hkept (Int.natCast_nonneg _)
        (hbelow first List.mem_cons_self v hfirst)
    | none =>
      have hrest : r ∈ rest := by
        rcases List.mem_cons.1 hr with rfl | hrest
        · rw [hfirst] at hd
          cases hd
        · exact hrest
      exact ih hkept hlimit hrest fun e he => hbelow e (List.mem_cons_of_mem _ he)

end Plan

namespace IndexTarget

/-- By brute force, an index that may report any of its edges reports one exactly if there is one
within the limit. -/
lemma isSome_closer?_iff {x : Index} (hx : x.WellFormed) {s : Site}
    (hbrute : x.edgeCount ≤ min unlimited s.measure.bruteForceSize) {E : EdgeRef → Chord}
    (hzero : ∀ r ∈ x.edges, Chord.zero ≤ E r)
    (hE : ∀ r ∈ x.edges, ∀ m, Chord.zero < m →
      s.measure.toEdge r.edge m = Closer.ofChord (E r) m) (err m : Chord) :
    ((⟨x, false, err⟩ : IndexTarget).closer? s m).isSome ↔ ∃ r ∈ x.edges, E r < m := by
  let q := (⟨x, false, err⟩ : IndexTarget).inner s m
  constructor
  · intro hsome
    by_contra hnone
    have hrun : q.run = [] := by
      rcases le_or_gt m Chord.zero with hm | hm
      · exact Request.run_of_le_zero (q := q) hm
      · refine Request.run_eq_nil (q := q) hx (fun hon => by cases hon) fun r hr => ?_
        exact (hE r hr m hm).trans (if_neg fun hlt => hnone ⟨r, hr, hlt⟩)
    rw [closer?_eq_none hrun] at hsome
    cases hsome
  · rintro ⟨r, hr, hlt⟩
    have hm : Chord.zero < m := (hzero r hr).trans_lt hlt
    have hall : q.usesBruteForce = true :=
      decide_eq_true (Index.edgeCountUpTo_succ_le_iff.2 hbrute)
    have hdone : (q.settings.includeInteriors && Plan.isDone q.interiors) = false := rfl
    have hbelow : ∀ r ∈ x.edges, ∀ d, s.measure.toEdge r.edge m = some d → d < m := by
      intro r hr d hd
      rw [hE r hr m hm] at hd
      obtain ⟨hlt, rfl⟩ := Closer.eq_some_of_ofChord hd
      exact hlt
    have honce : (q.plan q.interiors.limit).once = false := by
      show (!q.usesBruteForce && q.isApproximate && _) = false
      rw [hall]
      rfl
    obtain ⟨a, hkept, hshape, ha⟩ := Plan.hasOne_of_exists (s := ⟨q.interiors, [], .empty⟩) honce
      rfl rfl hr ((hE r hr m hm).trans (if_pos hlt)) hbelow
    have hrun : q.run = [a] := by
      rw [Request.run_eq (q := q) hm, hdone, if_neg Bool.false_ne_true, hall, if_pos rfl]
      show (((q.plan q.interiors.limit).bruteForce q.interiors).kept).results = [a]
      exact congrArg Kept.results hkept
    rw [closer?_eq_some hrun hshape ha]
    rfl

/-- What an index reports is below the limit. -/
lemma lt_of_closer? {t : IndexTarget} {s : Site} {m v : Chord} (h : t.closer? s m = some v) :
    v < m := by
  simp only [closer?] at h
  split at h
  · exact absurd h (by simp)
  · split at h
    · exact absurd h (by simp)
    · rename_i r _ _ hnot
      rw [Bool.or_eq_true, not_or, decide_eq_true_iff] at hnot
      rw [← Option.some.inj h]
      exact not_le.1 hnot.2

/-- If an edge of an index is at no distance from a simple target, then every error leaves the
index something to report within every limit above zero. -/
lemma closer?_of_eq_zero {x : Index} (hx : x.WellFormed) {s : Site}
    (hbrute : x.edgeCount ≤ min unlimited s.measure.bruteForceSize) {E : EdgeRef → Chord}
    (hzero : ∀ r ∈ x.edges, Chord.zero ≤ E r)
    (hE : ∀ r ∈ x.edges, ∀ m, Chord.zero < m →
      s.measure.toEdge r.edge m = Closer.ofChord (E r) m) {r : EdgeRef} (hr : r ∈ x.edges)
    (hr0 : E r = Chord.zero) (err m : Chord) :
    (((⟨x, false, err⟩ : IndexTarget).closer? s m).isSome ↔ Chord.zero < m) ∧
      ∀ v, (⟨x, false, err⟩ : IndexTarget).closer? s m = some v →
        v < m ∧ (err = Chord.zero → v = Chord.zero) := by
  refine ⟨(isSome_closer?_iff hx hbrute hzero hE err m).trans ⟨?_, ?_⟩, fun v hv => ?_⟩
  · rintro ⟨other, hother, hlt⟩
    exact (hzero other hother).trans_lt hlt
  · exact fun hm => ⟨r, hr, hr0 ▸ hm⟩
  · refine ⟨lt_of_closer? hv, ?_⟩
    rintro rfl
    have hall : ((exact x false).inner s m).usesBruteForce = true :=
      decide_eq_true (Index.edgeCountUpTo_succ_le_iff.2 hbrute)
    rcases closer?_cases hx hzero hE m (fun hnot => absurd (hall.symm.trans hnot) (by decide)) with
      ⟨-, hnone⟩ | ⟨other, hother, -, hleast, hsome⟩
    · rw [exact] at hnone
      rw [hnone] at hv
      cases hv
    · rw [exact] at hsome
      rw [hsome] at hv
      rw [← Option.some.inj hv]
      exact le_antisymm ((hleast r hr).trans hr0.le) (hzero other hother)

end IndexTarget

/-- The north pole. -/
def northShapes : List Shape := [.points #[Point.north]]

/-- The two poles, of which the southern one is met first. -/
def southNorthShapes : List Shape := [.points #[⟨0.0, 0.0, -1.0⟩, Point.north]]

lemma cells_northShapes :
    (Index.build northShapes .default).cells = #[⟨CellId.ofFace 4, [⟨0, false, [0]⟩]⟩] := by
  decide +kernel

/-- From the poles, the north pole is at no distance, whatever error they have. -/
lemma reports_northShapes (own err : Chord) :
    (Target.index ⟨Index.build southNorthShapes .default, false, own⟩).Reports
      (Index.build northShapes .default) (fun _ => Chord.zero) err := by
  have hx : (Index.build southNorthShapes .default).WellFormed := Index.wellFormed_buildWith _ _ _
  let south : Point := ⟨0.0, 0.0, -1.0⟩
  have hedges : (Index.build southNorthShapes .default).edges =
      [⟨0, 0, .degenerate south⟩, ⟨0, 1, .degenerate Point.north⟩] := rfl
  have hnorth : (⟨0, 1, .degenerate Point.north⟩ : EdgeRef) ∈
      (Index.build southNorthShapes .default).edges := by
    rw [hedges]
    exact List.mem_cons_of_mem _ List.mem_cons_self
  have hpoints : ∀ r ∈ (Index.build southNorthShapes .default).edges, ∀ m, Chord.zero < m →
      (Edge.degenerate Point.north).closerEdge? r.edge m =
        Closer.ofChord (Chord.between Point.north r.edge.start) m := by
    rw [hedges]
    intro r hr m hm
    simp only [List.mem_cons, List.not_mem_nil, or_false] at hr
    rcases hr with rfl | rfl
    all_goals
      refine IndexTarget.closerEdge?_degenerate hm (by decide +kernel) ?_ ?_
      all_goals
        exact Edge.closerPoint?_eq_ofChord (Chord.zero_le_between _ _) (by decide +kernel)
          (by decide +kernel) (by decide +kernel)
  have hedge := fun m => IndexTarget.closer?_of_eq_zero hx (s := .edge (.degenerate Point.north))
    (by decide +kernel) (E := fun r => Chord.between Point.north r.edge.start)
    (fun r _ => Chord.zero_le_between _ _) hpoints hnorth (by decide +kernel) err m
  have hcell := fun m => IndexTarget.closer?_of_eq_zero hx
    (s := .cell (Cell.ofId (CellId.ofFace 4)))
    (by decide +kernel) (E := fun r => (Cell.ofId (CellId.ofFace 4)).distanceToEdge r.edge)
    (by decide +kernel) (fun _ _ _ _ => rfl) hnorth (by decide +kernel) err m
  have hall : (Index.build northShapes .default).edges = [⟨0, 0, .degenerate Point.north⟩] := rfl
  constructor
  · rw [hall]
    intro r hr m
    rw [List.mem_singleton.1 hr]
    exact (hedge m).1
  · rw [hall]
    intro r hr m v hv
    rw [List.mem_singleton.1 hr] at hv
    exact (hedge m).2 v hv
  · rw [hall, cells_northShapes]
    intro r hr
    rw [List.mem_singleton.1 hr]
    refine ⟨⟨CellId.ofFace 4, [⟨0, false, [0]⟩]⟩, Array.mem_of_getElem? (i := 0) rfl,
      List.mem_singleton_self _, ?_⟩
    intro level hlevel m hm
    rw [CellId.At.parentAt_ofFace (by decide) hlevel]
    obtain ⟨v, hv⟩ := Option.isSome_iff_exists.1 ((hcell m).1.2 hm)
    obtain ⟨hlt, hzero⟩ := (hcell m).2 v hv
    exact ⟨v, hlt, fun herr => (hzero herr).le, hv⟩

/-- The north pole is closer to the poles than a right angle, and at no distance. -/
theorem Query.isDistanceLess_iff_distance_lt_north :
    let x := Index.build northShapes .default
    let t := Target.index (.exact (Index.build southNorthShapes .default) false)
    let q : Query := ⟨x, .default, 0⟩
    t.measure.cap.isEmpty = false ∧ (∀ err, t.Reports x (fun _ => Chord.zero) err) ∧
      (q.isDistanceLess t Chord.right = true ↔ q.distance t < Chord.right) ∧
      (q.isDistanceLessOrEqual t Chord.zero = true ↔ q.distance t ≤ Chord.zero) ∧
      (q.isDistanceLess t Chord.right = true →
        q.isConservativeDistanceLess t Chord.right = true) := by
  intro x t q
  have hcap : t.measure.cap.isEmpty = false := by decide +kernel
  have hreports : ∀ err, t.Reports x (fun _ => Chord.zero) err := reports_northShapes _
  obtain ⟨hless, hle, -, hwider⟩ := isDistanceLess_iff_distance_lt t northShapes .default .default 0
    (fun _ => Chord.zero) rfl rfl hcap hreports
  exact ⟨hcap, hreports, hless Chord.right, hle Chord.zero (by decide), (hwider Chord.right).1⟩

/-- **A distance with an error of its own.**  An index that was given an error measures the
distance with it, but not the question whether anything is closer: here the distance is that of
opposite points, although something is closer than a right angle. -/
theorem Query.exists_isDistanceLess_ne :
    let x := Index.build northShapes .default
    let t := Target.index ⟨Index.build southNorthShapes .default, false, Chord.straight⟩
    let q := Query.ofIndex x
    q.settings.maxDistance = Chord.infinity ∧ q.settings.maxError = Chord.zero ∧
      t.measure.cap.isEmpty = false ∧ (∀ err, t.Reports x (fun _ => Chord.zero) err) ∧
      q.distance t = Chord.straight ∧
      ¬ (q.isDistanceLess t Chord.right = true ↔ q.distance t < Chord.right) := by
  intro x t q
  have hdistance : q.distance t = Chord.straight := by decide +kernel
  have hless : q.isDistanceLess t Chord.right = true := by decide +kernel
  refine ⟨rfl, rfl, by decide +kernel, reports_northShapes _, hdistance, ?_⟩
  rw [hdistance]
  intro hiff
  exact absurd (hiff.1 hless) (by decide)

end SphereSearch.Search
