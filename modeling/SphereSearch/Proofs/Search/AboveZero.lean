import SphereSearch.Proofs.Search.BestFirst

/-!
# Limits above zero

A search without an allowance for error never measures an edge against a limit that is not above
zero: the limit starts above zero, and it only falls to the successor of a distance.  So it does
not matter what a target answers to such limits (`Request.run_remeasure`), and the search is exact
if edges have one distance against the limits above zero (`Request.run_eq_firstOf_of_pos`).
-/

namespace SphereSearch.Search

namespace Plan

/-- The same search with other distances to edges. -/
def remeasure (p : Plan) (g : Edge → Closer) : Plan :=
  { p with measure := { p.measure with toEdge := g } }

lemma index_remeasure (p : Plan) (g : Edge → Closer) : (p.remeasure g).index = p.index := rfl

lemma cap_remeasure (p : Plan) (g : Edge → Closer) :
    (p.remeasure g).measure.cap = p.measure.cap := rfl

lemma queue_remeasure (p : Plan) (g : Edge → Closer) : (p.remeasure g).queue = p.queue := rfl

/-- What is kept by offering edges of the index, and as long as it holds, other distances make no
difference. -/
structure Indifferent (p : Plan) (g : Edge → Closer) (motive : State → Prop) : Prop where
  requeue : ∀ (s : State) (queue : Heap Entry), motive s → motive { s with queue := queue }
  offer : ∀ s, ∀ r ∈ p.index.edges, motive s → motive (p.offer s r)
  offer_eq : ∀ s, ∀ r ∈ p.index.edges, motive s → (p.remeasure g).offer s r = p.offer s r

/-- Measuring an edge makes no difference where its distance is the same. -/
lemma measureEdge_remeasure {p : Plan} {g : Edge → Closer} {s : State} {r : EdgeRef}
    (h : g r.edge s.found.limit = p.measure.toEdge r.edge s.found.limit) :
    (p.remeasure g).measureEdge s r = p.measureEdge s r := by
  have h : (p.remeasure g).measure.toEdge r.edge s.found.limit =
      p.measure.toEdge r.edge s.found.limit := h
  simp only [measureEdge]
  rw [h]

namespace Indifferent

variable {p : Plan} {g : Edge → Closer} {motive : State → Prop} (h : p.Indifferent g motive)
  (hx : p.index.WellFormed) {s : State}

include h

lemma foldl_offer {rs : List EdgeRef} (hrs : ∀ r ∈ rs, r ∈ p.index.edges) (hs : motive s) :
    rs.foldl (p.remeasure g).offer s = rs.foldl p.offer s := by
  induction rs generalizing s with
  | nil => rfl
  | cons r rest ih =>
    have hr := hrs r List.mem_cons_self
    rw [List.foldl_cons, List.foldl_cons, h.offer_eq s r hr hs]
    exact ih (fun e he => hrs e (List.mem_cons_of_mem _ he)) (h.offer s r hr hs)

/-- Brute force makes no difference either. -/
lemma bruteForce_eq {found : Collector} (hs : motive ⟨found, [], .empty⟩) :
    (p.remeasure g).bruteForce found = p.bruteForce found :=
  congrArg State.found (h.foldl_offer (fun _ hr => hr) hs)

include hx

lemma keeps : p.Keeps motive where
  requeue := h.requeue
  offer s cell r hr hs := h.offer s r (hx.mem_edges cell r hr) hs

lemma visit_eq (cell : IndexCell) (hs : motive s) :
    (p.remeasure g).visit s cell = p.visit s cell :=
  h.foldl_offer (hx.mem_edges cell) hs

lemma takeUp_eq (r : Region) (hs : motive s) :
    (p.remeasure g).takeUp s r = p.takeUp s r := by
  simp only [takeUp]
  rw [index_remeasure, queue_remeasure]
  cases r.position?.bind (p.index.cells[·]?) with
  | none => rfl
  | some cell =>
    dsimp only
    rw [h.visit_eq hx cell hs]

lemma foldl_takeUp_eq (rs : List Region) (hs : motive s) :
    rs.foldl (p.remeasure g).takeUp s = rs.foldl p.takeUp s := by
  induction rs generalizing s with
  | nil => rfl
  | cons r rest ih =>
    rw [List.foldl_cons, List.foldl_cons, h.takeUp_eq hx r hs]
    exact ih ((h.keeps hx).takeUp r hs)

lemma expand_eq (r : Region) (hs : motive s) :
    (p.remeasure g).expand s r = p.expand s r := by
  simp only [expand]
  rw [index_remeasure]
  cases r.position? with
  | none => exact h.foldl_takeUp_eq hx _ hs
  | some position =>
    dsimp only
    cases p.index.cells[position]? with
    | none => rfl
    | some cell => exact h.visit_eq hx cell hs

lemma step_eq (hs : motive s) : (p.remeasure g).step s = p.step s := by
  simp only [step]
  cases s.queue.pop? Entry.before with
  | none => rfl
  | some popped =>
    dsimp only
    rw [h.expand_eq hx _ (h.requeue s popped.2 hs)]

/-- Turn after turn. -/
lemma drain_eq (s : State) (hs : motive s) : (p.remeasure g).drain s = p.drain s := by
  -- The other search takes the same turns, which the recursion of this one counts.
  fun_induction Plan.drain p s with
  | case1 s hover =>
    rw [Plan.drain]
    split
    · rfl
    · rename_i next hstep
      rw [h.step_eq hx hs, hover] at hstep
      cases hstep
  | case2 s next hstep ih =>
    rw [Plan.drain]
    split
    · rename_i hover
      rw [h.step_eq hx hs, hstep] at hover
      cases hover
    · rename_i other hother
      rw [h.step_eq hx hs, hstep] at hother
      rw [← Option.some.inj hother]
      exact ih ((h.keeps hx).step hstep hs)

lemma visitCenter_eq (hs : motive s) : (p.remeasure g).visitCenter s = p.visitCenter s := by
  simp only [visitCenter]
  rw [index_remeasure, cap_remeasure]
  cases p.index.locate (CellId.ofPoint p.measure.cap.center) with
  | indexed position =>
    dsimp only
    cases p.index.cells[position]? with
    | none => rfl
    | some cell => exact h.visit_eq hx cell hs
  | subdivided => rfl
  | disjoint => rfl

lemma start_eq {found : Collector} (hs : motive ⟨found, [], .empty⟩) :
    (p.remeasure g).start found = p.start found := by
  have hcenter := (h.keeps hx).visitCenter hs
  simp only [start]
  rw [index_remeasure, cap_remeasure, h.visitCenter_eq hx hs]
  by_cases hone : found.capacity = 1
  · rw [if_pos hone, h.foldl_takeUp_eq hx _ hcenter]
  · rw [if_neg hone, h.foldl_takeUp_eq hx _ hs]

/-- The best-first search makes no difference. -/
lemma bestFirst_eq {found : Collector} (hs : motive ⟨found, [], .empty⟩) :
    (p.remeasure g).bestFirst found = p.bestFirst found := by
  simp only [bestFirst]
  rw [h.start_eq hx hs, h.drain_eq hx _ ((h.keeps hx).start hs)]

end Indifferent

end Plan

namespace Request

variable {q : Request} {D : EdgeRef → Chord}

/-- The same request for a target with other distances to edges. -/
def remeasure (q : Request) (g : Edge → Closer) : Request :=
  { q with measure := { q.measure with toEdge := g } }

/-- A request for a target makes no difference if edges have the same distances against all limits
above zero. -/
lemma run_remeasure (hx : q.index.WellFormed) (herr : q.settings.maxError = Chord.zero)
    (hM : Chord.zero < q.settings.maxDistance) (happrox : q.isApproximate = false)
    (hzero : ∀ r ∈ q.index.edges, Chord.zero ≤ D r) {g : Edge → Closer}
    (hg : ∀ r ∈ q.index.edges, g r.edge = Closer.ofChord (D r))
    (hD : ∀ r ∈ q.index.edges, ∀ m, Chord.zero < m →
      q.measure.toEdge r.edge m = Closer.ofChord (D r) m) :
    (q.remeasure g).run = q.run := by
  -- The results offered so far are answers, so that the limit is above zero.
  let offered : State → Prop := fun s =>
    ∃ S, Offered q.settings.maxResults (q.answers D) q.settings.maxDistance s.found S
  have hexact : ∀ limit, ((q.plan limit).remeasure g).Exact D :=
    fun limit => exact_plan (q := q.remeasure g) happrox hg limit
  have hanswers : ∀ r ∈ q.answers D, Chord.zero ≤ r.distance := by
    intro r hr
    rcases mem_answers.1 hr with hr | hr
    · obtain ⟨-, id, -, rfl⟩ := mem_interiorAnswers.1 hr
      exact le_refl Chord.zero
    · obtain ⟨e, he, -, rfl⟩ := mem_edgeAnswers.1 hr
      exact hzero e he
  have hsame : ∀ limit s, ∀ r ∈ q.index.edges, offered s →
      ((q.plan limit).remeasure g).offer s r = (q.plan limit).offer s r := by
    rintro limit s r hr ⟨S, hS⟩
    have honce := (hexact limit).once_eq
    rw [Plan.offer_eq_measureEdge honce, Plan.offer_eq_measureEdge (p := q.plan limit) honce]
    have hmeasure : g r.edge s.found.limit = q.measure.toEdge r.edge s.found.limit := by
      rw [hg r hr, hD r hr _ (hS.zero_lt_limit hM hanswers)]
    exact Plan.measureEdge_remeasure hmeasure
  have hindifferent : ∀ limit, (q.plan limit).Indifferent g offered := by
    intro limit
    refine ⟨fun _ _ hs => hs, ?_, hsame limit⟩
    intro s r hr hs
    rw [← hsame limit s r hr hs]
    obtain ⟨S, hS⟩ := hs
    obtain ⟨S', -, hS', -⟩ := hS.offer (hexact limit) hr fun hlt => mem_answers_of_lt r hr hlt
    exact ⟨S', hS'⟩
  have hstart : offered ⟨q.interiors, [], .empty⟩ :=
    ⟨_, (offered_interiors herr hM).mono Finset.subset_union_left⟩
  rw [run_of_zero_lt herr hM, run_of_zero_lt (q := q.remeasure g) herr hM]
  show (if q.usesBruteForce then ((q.plan q.interiors.limit).remeasure g).bruteForce q.interiors
    else ((q.plan q.interiors.limit).remeasure g).bestFirst q.interiors).results = _
  rw [(hindifferent _).bruteForce_eq hstart, (hindifferent _).bestFirst_eq hx hstart]

/-- **Exact above zero.**  A search without an allowance for error finds the first of the possible
answers if edges have one distance against the limits above zero. -/
theorem run_eq_firstOf_of_pos (hx : q.index.WellFormed)
    (herr : q.settings.maxError = Chord.zero) (hM : Chord.zero < q.settings.maxDistance)
    (happrox : q.isApproximate = false) (hzero : ∀ r ∈ q.index.edges, Chord.zero ≤ D r)
    (hD : ∀ r ∈ q.index.edges, ∀ m, Chord.zero < m →
      q.measure.toEdge r.edge m = Closer.ofChord (D r) m)
    (hshows : q.usesBruteForce = false → q.measure.cap.isEmpty = false ∧
      ∀ r ∈ q.index.edges, ∃ cell ∈ q.index.cells, q.measure.Shows q.index D r cell) :
    q.run = firstOf q.settings.maxResults (q.answers D).sort := by
  -- Limits that are not above zero admit nothing, like a known distance that is not negative.
  let g : Edge → Closer := fun e m => if Chord.zero < m then q.measure.toEdge e m else none
  have hg : ∀ r ∈ q.index.edges, g r.edge = Closer.ofChord (D r) := by
    intro r hr
    funext m
    by_cases hm : Chord.zero < m
    · exact (if_pos hm).trans (hD r hr m hm)
    · have hnot : ¬ D r < m := fun hlt => hm ((hzero r hr).trans_lt hlt)
      exact (if_neg hm).trans (if_neg hnot).symm
  rw [← run_remeasure hx herr hM happrox hzero hg hD]
  exact run_eq_firstOf (q := q.remeasure g) hx herr hM happrox hg (fun r hr _ => hzero r hr) hshows

end Request

end SphereSearch.Search
