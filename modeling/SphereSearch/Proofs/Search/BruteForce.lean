import SphereSearch.Proofs.Search.Containing
import SphereSearch.Proofs.Search.Offers
import SphereSearch.Proofs.Sphere.EdgeDistance

/-!
# Brute force

When every edge has one distance, there is a set of possible answers (`Request.answers`): the
shapes around the target, if they count, and the edges closer than the limit.  A search that
measures all edges returns the first of them in ascending order, in whatever order and however
often it measures them (`Target.search_eq_take_answers`).
-/

namespace SphereSearch

namespace Search

namespace Request

variable {q : Request} {D : EdgeRef → Chord}

/-! ### Answers -/

/-- The results for the shapes around the target, if they count. -/
def interiorAnswers (q : Request) : Finset Result :=
  if q.settings.includeInteriors then
    ((q.containing q.settings.maxResults).map fun id : ℕ => Result.interior id).toFinset
  else ∅

/-- The results for the edges that are closer than the limit. -/
def edgeAnswers (q : Request) (D : EdgeRef → Chord) : Finset Result :=
  ((q.index.edges.filter fun r => D r < q.settings.maxDistance).map (EdgeRef.result D)).toFinset

/-- Everything that could be a result if the edges are at the given distances. -/
def answers (q : Request) (D : EdgeRef → Chord) : Finset Result :=
  q.interiorAnswers ∪ q.edgeAnswers D

lemma mem_interiorAnswers {r : Result} :
    r ∈ q.interiorAnswers ↔ q.settings.includeInteriors = true ∧
      ∃ id ∈ q.containing q.settings.maxResults, Result.interior (id : ℕ) = r := by
  simp only [interiorAnswers]
  split
  · rename_i h
    rw [List.mem_toFinset, List.mem_map]
    exact ⟨fun hr => ⟨h, hr⟩, fun hr => hr.2⟩
  · rename_i h
    constructor
    · exact fun hr => absurd hr (Finset.notMem_empty r)
    · exact fun hr => absurd hr.1 h

lemma mem_edgeAnswers {r : Result} :
    r ∈ q.edgeAnswers D ↔
      ∃ e ∈ q.index.edges, D e < q.settings.maxDistance ∧ e.result D = r := by
  simp only [edgeAnswers]
  rw [List.mem_toFinset, List.mem_map]
  constructor
  · rintro ⟨e, he, rfl⟩
    obtain ⟨hmem, hlt⟩ := List.mem_filter.1 he
    exact ⟨e, hmem, of_decide_eq_true hlt, rfl⟩
  · rintro ⟨e, hmem, hlt, rfl⟩
    exact ⟨e, List.mem_filter.2 ⟨hmem, decide_eq_true hlt⟩, rfl⟩

lemma mem_answers {r : Result} :
    r ∈ q.answers D ↔ r ∈ q.interiorAnswers ∨ r ∈ q.edgeAnswers D := Finset.mem_union

/-- The results for edges within the limit are answers. -/
lemma mem_answers_of_lt : ∀ r ∈ q.index.edges, D r < q.settings.maxDistance →
    r.result D ∈ q.answers D :=
  fun r hr hlt => mem_answers.2 (Or.inr (mem_edgeAnswers.2 ⟨r, hr, hlt, rfl⟩))

/-- There are at most as many answers as shapes around the target and edges. -/
lemma card_answers_le {n : ℕ} (h : ∀ id ∈ q.containing q.settings.maxResults, id < n) :
    (q.answers D).card ≤ n + q.index.edges.length := by
  have hinterior : q.interiorAnswers ⊆ (Finset.range n).image fun id : ℕ => Result.interior id := by
    intro r hr
    obtain ⟨-, id, hid, rfl⟩ := mem_interiorAnswers.1 hr
    exact Finset.mem_image_of_mem _ (Finset.mem_range.2 (h id hid))
  have h₁ : q.interiorAnswers.card ≤ n := by
    refine (Finset.card_le_card hinterior).trans (Finset.card_image_le.trans ?_)
    rw [Finset.card_range]
  have h₂ : (q.edgeAnswers D).card ≤ q.index.edges.length := by
    refine (List.toFinset_card_le _).trans ?_
    rw [List.length_map]
    exact List.length_filter_le _ _
  exact (Finset.card_union_le _ _).trans (Nat.add_le_add h₁ h₂)

/-! ### Running a request -/

/-- The collector that has seen the shapes around the target. -/
lemma serves_interiors (hM : Chord.zero < q.settings.maxDistance) :
    q.interiors.Serves q.settings.maxResults q.settings.maxError q.settings.maxDistance
      q.interiorAnswers := by
  have hfold : ∀ (ids : List ℕ) (c : Collector) (S : Finset Result),
      c.Serves q.settings.maxResults q.settings.maxError q.settings.maxDistance S →
      (ids.foldl (fun found (id : ℕ) => found.add (Result.interior id)) c).Serves
        q.settings.maxResults q.settings.maxError q.settings.maxDistance
        (S ∪ (ids.map fun id : ℕ => Result.interior id).toFinset) := by
    intro ids
    induction ids with
    | nil =>
      intro c S h
      simpa using h
    | cons id rest ih =>
      intro c S h
      rw [List.foldl_cons, List.map_cons, List.toFinset_cons, Finset.union_insert,
        ← Finset.insert_union]
      exact ih _ _ (h.add hM)
  have hempty : (Collector.empty q.settings.maxResults q.settings.maxError
      q.settings.maxDistance).Serves q.settings.maxResults q.settings.maxError
        q.settings.maxDistance ∅ :=
    .empty q.settings.maxResults_pos _ _
  simp only [interiors, interiorAnswers]
  split
  · have h := hfold (q.containing q.settings.maxResults) _ ∅ hempty
    rw [Finset.empty_union] at h
    exact h
  · exact hempty

lemma offered_interiors (herr : q.settings.maxError = Chord.zero)
    (hM : Chord.zero < q.settings.maxDistance) :
    Offered q.settings.maxResults q.interiorAnswers q.settings.maxDistance q.interiors
      q.interiorAnswers :=
  ⟨herr ▸ serves_interiors hM, Finset.Subset.refl _⟩

/-- The shapes around the target never make a search end early. -/
lemma not_isDone_interiors (herr : q.settings.maxError = Chord.zero)
    (hM : Chord.zero < q.settings.maxDistance) :
    Plan.isDone q.interiors = false := by
  have hlimit := (offered_interiors herr hM).zero_lt_limit hM fun r hr => by
    obtain ⟨-, id, -, rfl⟩ := mem_interiorAnswers.1 hr
    exact le_refl Chord.zero
  simp only [Plan.isDone]
  rw [decide_eq_false_iff_not, not_le]
  exact hlimit

lemma run_of_le_zero (h : q.settings.maxDistance ≤ Chord.zero) : q.run = [] := by
  simp only [run]
  rw [if_pos h]

/-- A search goes one of the two ways to its end, unless the shapes around the target leave
nothing to be found. -/
lemma run_eq (hM : Chord.zero < q.settings.maxDistance) :
    q.run = if q.settings.includeInteriors && Plan.isDone q.interiors then q.interiors.results
      else (if q.usesBruteForce then (q.plan q.interiors.limit).bruteForce q.interiors
        else (q.plan q.interiors.limit).bestFirst q.interiors).results := by
  unfold run
  rw [if_neg (not_le.2 hM)]

/-- Without an allowance for error, a search always goes to its end. -/
lemma run_of_zero_lt (herr : q.settings.maxError = Chord.zero)
    (hM : Chord.zero < q.settings.maxDistance) :
    q.run = (if q.usesBruteForce then (q.plan q.interiors.limit).bruteForce q.interiors
      else (q.plan q.interiors.limit).bestFirst q.interiors).results := by
  rw [run_eq hM, not_isDone_interiors herr hM, Bool.and_false, if_neg Bool.false_ne_true]

/-- The plan of a target that makes no use of an allowance for error. -/
lemma exact_plan (happrox : q.isApproximate = false)
    (hD : ∀ r ∈ q.index.edges, q.measure.toEdge r.edge = Closer.ofChord (D r)) (limit : Chord) :
    (q.plan limit).Exact D where
  once_eq := by
    show (!q.usesBruteForce && q.isApproximate && _) = false
    rw [happrox, Bool.and_false, Bool.false_and]
  slack_eq := by
    show q.slack? limit = none
    simp only [slack?]
    rw [happrox, Bool.false_and, if_neg Bool.false_ne_true]
  toEdge_eq := hD

/-- When the results of all edges are settled, the first of the possible answers are found. -/
lemma results_eq_of_settled {c : Collector} {S : Finset Result} (hS : q.interiorAnswers ⊆ S)
    (h : Offered q.settings.maxResults (q.answers D) q.settings.maxDistance c S)
    (hsettled : ∀ r ∈ q.index.edges, D r < q.settings.maxDistance →
      Settled q.settings.maxResults S (r.result D)) :
    c.results = firstOf q.settings.maxResults (q.answers D).sort := by
  refine h.results_eq ?_
  intro r hr
  rcases mem_answers.1 hr with hr | hr
  · exact Or.inl (hS hr)
  · obtain ⟨e, he, hlt, rfl⟩ := mem_edgeAnswers.1 hr
    exact hsettled e he hlt

/-- Offering the edges of the index in any order, and as often as one likes, finds the first of
the possible answers. -/
lemma results_offerAll (herr : q.settings.maxError = Chord.zero)
    (hM : Chord.zero < q.settings.maxDistance) (happrox : q.isApproximate = false)
    (hD : ∀ r ∈ q.index.edges, q.measure.toEdge r.edge = Closer.ofChord (D r)) (limit : Chord)
    {edges : List EdgeRef} (hedges : ∀ r, r ∈ edges ↔ r ∈ q.index.edges) :
    ((q.plan limit).offerAll q.interiors edges).results =
      firstOf q.settings.maxResults (q.answers D).sort := by
  have hstart := (offered_interiors herr hM).mono (Finset.subset_union_left : _ ⊆ q.answers D)
  obtain ⟨E, -, ⟨S, hS, hoffered, hsettled⟩, hall⟩ := Plan.Ledger.foldl_offer
    (L := (exact_plan happrox hD limit).ledger q.settings.maxResults q.interiorAnswers
      mem_answers_of_lt) (s := ⟨q.interiors, [], .empty⟩) (E := ∅) (fun r hr => (hedges r).1 hr)
    ⟨q.interiorAnswers, Finset.Subset.refl _, hstart, by simp⟩
  exact results_eq_of_settled hS hoffered fun r hr => hsettled r hr (hall r ((hedges r).2 hr))

/-- Measuring all edges finds the first of the possible answers. -/
lemma run_bruteForce (herr : q.settings.maxError = Chord.zero)
    (hM : Chord.zero < q.settings.maxDistance) (happrox : q.isApproximate = false)
    (hD : ∀ r ∈ q.index.edges, q.measure.toEdge r.edge = Closer.ofChord (D r))
    (hbrute : q.usesBruteForce = true) :
    q.run = firstOf q.settings.maxResults (q.answers D).sort := by
  rw [run_of_zero_lt herr hM, if_pos hbrute]
  exact results_offerAll herr hM happrox hD _ fun r => Iff.rfl

end Request

/-! ### Targets -/

/-- Without an allowance for error, no target makes use of one. -/
lemma Target.isApproximate_request {t : Target} {x : Index} {settings : Settings}
    (herr : settings.maxError = Chord.zero) (threshold : ℕ) :
    (t.request x settings threshold).isApproximate = false ∧
      (t.request x settings threshold).measure = t.measure := by
  have hnot : ¬ settings.maxError > Chord.zero := by rw [herr]; exact lt_irrefl _
  simp only [request]
  rw [if_neg hnot]
  exact ⟨rfl, rfl⟩

end Search

/-- The number of edges of shapes that are bounded in number and size. -/
lemma EdgeRef.length_all_le {n : ℕ} {shapes : List Shape} (h : ∀ s ∈ shapes, s.edgeCount ≤ n) :
    (EdgeRef.all shapes).length ≤ shapes.length * n := by
  have hlen : ∀ s ∈ shapes, s.edges.length ≤ n := by
    intro s hs
    have hle : s.edges.length ≤ (List.range s.edgeCount).length := List.length_filterMap_le _ _
    rw [List.length_range] at hle
    exact hle.trans (h s hs)
  have hsum : ∀ (i : ℕ), ((shapes.zipIdx i).flatMap fun p =>
      p.1.edges.zipIdx.map fun q => (⟨p.2, q.2, q.1⟩ : EdgeRef)).length ≤
        shapes.length * n := by
    clear h
    induction shapes with
    | nil => simp
    | cons s rest ih =>
      intro i
      have hs := hlen s (by simp)
      have hrest := ih (fun q hq => hlen q (by simp [hq])) (i + 1)
      rw [List.zipIdx_cons, List.flatMap_cons, List.length_append, List.length_map,
        List.length_zipIdx, List.length_cons, Nat.succ_mul]
      dsimp only
      omega
  exact hsum 0

namespace Search

/-- **Brute force is exact.**  A search that measures every edge returns nothing if the limit is
no more than zero, and otherwise the least of all possible answers, ascending.  The result is
the same in whatever order the edges are offered, and however often. -/
theorem Target.search_eq_take_answers (t : Target) (shapes : List Shape)
    (indexSettings : Index.Settings) (settings : Settings) (threshold : ℕ) (D : EdgeRef → Chord)
    (hshapes : shapes.length < 2 ^ 31) (hedges : ∀ s ∈ shapes, s.edgeCount < 2 ^ 31)
    (herr : settings.maxError = Chord.zero)
    (hbrute : (t.request (Index.build shapes indexSettings) settings threshold).usesBruteForce)
    (hD : ∀ r ∈ EdgeRef.all shapes, t.measure.toEdge r.edge = Closer.ofChord (D r)) :
    let x := Index.build shapes indexSettings
    let q := t.request x settings threshold
    (settings.maxDistance ≤ Chord.zero → t.search x settings threshold = []) ∧
      (Chord.zero < settings.maxDistance →
        t.search x settings threshold = (q.answers D).sort.take settings.maxResults ∧
        ∀ edges : List EdgeRef, (∀ r, r ∈ edges ↔ r ∈ x.edges) →
          ((q.plan q.interiors.limit).offerAll q.interiors edges).results =
            t.search x settings threshold) := by
  intro x q
  obtain ⟨happrox, hmeasure⟩ := isApproximate_request (t := t) (x := x) herr threshold
  have hexact : ∀ r ∈ q.index.edges, q.measure.toEdge r.edge = Closer.ofChord (D r) := by
    intro r hr
    rw [hmeasure]
    exact hD r hr
  refine ⟨fun hle => Request.run_of_le_zero (q := q) hle, fun hM => ?_⟩
  have hoffer : ∀ edges : List EdgeRef, (∀ r, r ∈ edges ↔ r ∈ x.edges) →
      ((q.plan q.interiors.limit).offerAll q.interiors edges).results =
        firstOf settings.maxResults (q.answers D).sort :=
    fun edges hmem => Request.results_offerAll (q := q) herr hM happrox hexact _ hmem
  have hrun : t.search x settings threshold = firstOf settings.maxResults (q.answers D).sort :=
    Request.run_bruteForce (q := q) herr hM happrox hexact hbrute
  -- There are fewer answers than the number that stands for no limit.
  have hcard : (q.answers D).card ≤ unlimited := by
    have hids : ∀ id ∈ q.containing q.settings.maxResults, id < shapes.length :=
      fun id hid => lt_of_mem_containing (x := x) hid
    have hall : (EdgeRef.all shapes).length ≤ shapes.length * 2 ^ 31 :=
      EdgeRef.length_all_le fun s hs => (hedges s hs).le
    have hmul : shapes.length * 2 ^ 31 ≤ 2 ^ 31 * 2 ^ 31 := Nat.mul_le_mul_right _ hshapes.le
    have hle : (q.answers D).card ≤ shapes.length + (EdgeRef.all shapes).length :=
      Request.card_answers_le hids
    have hunlimited : unlimited = 2 ^ 64 - 1 := rfl
    omega
  constructor
  · rw [hrun, firstOf_eq_take (by rw [Finset.length_sort]; exact hcard)]
  · intro edges hmem
    rw [hrun, hoffer edges hmem]

/-- Points at the poles, the north pole twice. -/
def polarShapes : List Shape := [.points #[⟨0.0, 0.0, -1.0⟩, Point.north, Point.north]]

lemma closerPoint?_polarShapes :
    ∀ r ∈ EdgeRef.all polarShapes, r.edge.closerPoint? Point.north =
      Closer.ofChord (Chord.between Point.north r.edge.start) := by
  have hall : EdgeRef.all polarShapes = [⟨0, 0, .degenerate ⟨0.0, 0.0, -1.0⟩⟩,
      ⟨0, 1, .degenerate Point.north⟩, ⟨0, 2, .degenerate Point.north⟩] := rfl
  have hnorth : (Edge.degenerate Point.north).closerPoint? Point.north =
      Closer.ofChord (Chord.between Point.north Point.north) :=
    Edge.closerPoint?_eq_ofChord (Chord.zero_le_between _ _) (by decide +kernel)
      (by decide +kernel) (by decide +kernel)
  rw [hall]
  intro r hr
  simp only [List.mem_cons, List.not_mem_nil, or_false] at hr
  rcases hr with rfl | rfl | rfl
  · exact Edge.closerPoint?_eq_ofChord (Chord.zero_le_between _ _) (by decide +kernel)
      (by decide +kernel) (by decide +kernel)
  · exact hnorth
  · exact hnorth

/-- Two nearest points at the same distance, and one that is as far away as possible. -/
theorem Target.search_eq_take_answers_north :
    let x := Index.build polarShapes .default
    let settings := { Settings.default with
      maxResults := 2, maxResults_pos := by decide, useBruteForce := true }
    let t := Target.site (.point Point.north)
    let D := fun r : EdgeRef => Chord.between Point.north r.edge.start
    Chord.zero < settings.maxDistance ∧
      t.search x settings 0 = ((t.request x settings 0).answers D).sort.take 2 := by
  intro x settings t D
  have hmax : Chord.zero < settings.maxDistance := by decide
  refine ⟨hmax, ?_⟩
  exact ((search_eq_take_answers t polarShapes .default settings 0 D (by decide) (by decide)
    rfl rfl closerPoint?_polarShapes).2 hmax).1

end Search

end SphereSearch
