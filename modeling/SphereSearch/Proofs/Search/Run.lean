import SphereSearch.Proofs.Index.Cells
import SphereSearch.Proofs.Search.ResultOrder
import SphereSearch.Proofs.Sphere.EdgeDistance
import SphereSearch.Search.Target

/-!
# Along a search

All that a search ever does, apart from its queue, is to offer edges that the index lists.  So
what every offer keeps holds at the end if it holds at the start (`Plan.Keeps.bestFirst`).  The
collector changes only when an edge is measured, and what every measurement of a listed edge
preserves holds at the end as well, by brute force and by the best-first search
(`Request.searched_induction`).  One consequence is that every result is as far away as some
measurement or shape around the target says (`Request.forall_run`), and another one that targets
never report the chord `negative` (`Target.zero_le_of_toEdge`).
-/

namespace SphereSearch

/-- An index lists an edge, among all its edges or in a cell. -/
def Index.Lists (x : Index) (r : EdgeRef) : Prop := r ∈ x.edges ∨ ∃ cell, r ∈ x.edgesOf cell

lemma Index.WellFormed.mem_edges_of_lists {x : Index} (hx : x.WellFormed) {r : EdgeRef}
    (hr : x.Lists r) : r ∈ x.edges := by
  obtain hr | ⟨cell, hr⟩ := hr
  · exact hr
  · exact hx.mem_edges cell r hr

namespace Search

namespace Plan

/-- What neither another queue nor the offer of an edge that the index lists can change. -/
structure Keeps (p : Plan) (motive : State → Prop) : Prop where
  requeue : ∀ (s : State) (queue : Heap Entry), motive s → motive { s with queue := queue }
  offer : ∀ (s : State) (cell : IndexCell), ∀ r ∈ p.index.edgesOf cell, motive s →
    motive (p.offer s r)

namespace Keeps

variable {p : Plan} {motive : State → Prop} (h : p.Keeps motive) {s : State}

include h

lemma visit (cell : IndexCell) (hs : motive s) : motive (p.visit s cell) :=
  List.foldlRecOn _ p.offer hs fun s hs r hr => h.offer s cell r hr hs

lemma queue (r : Region) (hs : motive s) : motive (p.queue s r) := by
  simp only [Plan.queue]
  split
  · exact h.requeue s _ hs
  · exact hs

lemma takeUp (r : Region) (hs : motive s) : motive (p.takeUp s r) := by
  simp only [Plan.takeUp]
  split
  · split
    · exact hs
    · split
      · exact h.visit _ hs
      · exact h.queue r hs
  · exact h.queue r hs

lemma foldl_takeUp (rs : List Region) (hs : motive s) : motive (rs.foldl p.takeUp s) :=
  List.foldlRecOn rs p.takeUp hs fun _ hs r _ => h.takeUp r hs

lemma expand (r : Region) (hs : motive s) : motive (p.expand s r) := by
  simp only [Plan.expand]
  split
  · split
    · exact h.visit _ hs
    · exact hs
  · exact h.foldl_takeUp _ hs

/-- One turn. -/
lemma step {next : State} (hstep : p.step s = some next) (hs : motive s) : motive next := by
  obtain ⟨entry, rest, -, -, rfl⟩ := exists_of_step_eq_some hstep
  exact h.expand _ (h.requeue s rest hs)

/-- Turn after turn. -/
lemma drain (s : State) (hs : motive s) : motive (p.drain s) := by
  fun_induction Plan.drain p s with
  | case1 s _ => exact hs
  | case2 s next hstep ih => exact ih (h.step hstep hs)

lemma visitCenter (hs : motive s) : motive (p.visitCenter s) := by
  simp only [Plan.visitCenter]
  split
  · split
    · exact h.visit _ hs
    · exact hs
  · exact hs

lemma start {found : Collector} (hs : motive ⟨found, [], .empty⟩) : motive (p.start found) := by
  simp only [Plan.start]
  split
  · exact hs
  · split
    · split
      · exact h.visitCenter hs
      · exact h.foldl_takeUp _ (h.visitCenter hs)
    · split
      · exact hs
      · exact h.foldl_takeUp _ hs

/-- **What every offer keeps** holds after the best-first search. -/
theorem bestFirst (found : Collector) (hs : motive ⟨found, [], .empty⟩) :
    motive (p.drain (p.start found)) :=
  h.drain _ (h.start hs)

end Keeps

section Measured

variable {p : Plan} {motive : Collector → Prop}

/-- The collector is offered what a measurement reports, if anything. -/
lemma measureEdge_induction {s : State} {r : EdgeRef} (hs : motive s.found)
    (hadd : ∀ d, p.measure.toEdge r.edge s.found.limit = some d →
      motive (s.found.add ⟨d, r.shapeId, r.edgeId⟩)) : motive (p.measureEdge s r).found := by
  simp only [measureEdge]
  split
  · rename_i d hd
    exact hadd d hd
  · exact hs

lemma offer_induction {s : State} {r : EdgeRef}
    (h : ∀ s : State, motive s.found → motive (p.measureEdge s r).found) (hs : motive s.found) :
    motive (p.offer s r).found := by
  simp only [offer]
  split
  · split
    · exact hs
    · exact h _ hs
  · exact h s hs

/-- What measuring any of some edges preserves holds after they have been offered. -/
theorem offerAll_induction {found : Collector} {edges : List EdgeRef}
    (h : ∀ r ∈ edges, ∀ s : State, motive s.found → motive (p.measureEdge s r).found)
    (hs : motive found) : motive (p.offerAll found edges) :=
  List.foldlRecOn (motive := fun s => motive s.found) edges p.offer hs
    fun _ hs r hr => offer_induction (h r hr) hs

/-- What measuring any edge of an index cell preserves holds after the best-first search. -/
theorem bestFirst_induction {found : Collector}
    (h : ∀ cell, ∀ r ∈ p.index.edgesOf cell, ∀ s : State,
      motive s.found → motive (p.measureEdge s r).found)
    (hs : motive found) : motive (p.bestFirst found) :=
  Keeps.bestFirst (motive := fun s => motive s.found)
    ⟨fun _ _ hs => hs, fun _ cell r hr hs => offer_induction (h cell r hr) hs⟩ found hs

end Measured

end Plan

/-! ### What is true of all results -/

/-- Everything that is kept has a property. -/
def Kept.All (P : Result → Prop) : Kept → Prop
  | one result? => ∀ r ∈ result?, P r
  | every results => ∀ r ∈ results, P r
  | ranked results => ∀ r ∈ results, P r

namespace Collector

variable {P : Result → Prop} {c : Collector}

lemma all_empty (capacity : ℕ) (maxError limit : Chord) :
    (Collector.empty capacity maxError limit).kept.All P := by
  show (Kept.empty capacity).All P
  simp only [Kept.empty]
  split
  · exact fun r hr => absurd hr (by simp)
  · split
    · exact fun r hr => absurd hr (by simp)
    · exact fun r hr => absurd hr (by simp)

/-- A collector keeps nothing that it was not offered. -/
lemma all_add (h : c.kept.All P) {r : Result} (hr : P r) : (c.add r).kept.All P := by
  unfold add
  split
  · rename_i hkept
    rintro s hs
    cases hs
    exact hr
  · rename_i best hkept
    rw [hkept] at h
    split
    · rw [hkept]
      exact h
    · rintro s hs
      cases hs
      exact hr
  · rename_i results hkept
    rw [hkept] at h
    intro s hs
    rcases List.mem_cons.1 hs with rfl | hs
    · exact hr
    · exact h s hs
  · rename_i results hkept
    rw [hkept] at h
    have hmore : ∀ s ∈ Result.insert r results, P s := by
      intro s hs
      rcases Result.mem_insert.1 hs with rfl | hs
      · exact hr
      · exact h s hs
    dsimp only
    split
    · exact hmore
    · have hbest : ∀ s ∈ (if (Result.insert r results).length > c.capacity then
          (Result.insert r results).dropLast else Result.insert r results), P s := by
        split
        · exact fun s hs => hmore s (List.dropLast_subset _ hs)
        · exact hmore
      split
      · exact hbest
      · exact hbest

lemma of_mem_results (h : c.kept.All P) {r : Result} (hr : r ∈ c.results) : P r := by
  simp only [results] at hr
  cases hkept : c.kept with
  | one result? =>
    rw [hkept] at h hr
    exact h r (Option.mem_toList.1 hr)
  | every results =>
    rw [hkept] at h hr
    have hmem : r ∈ Result.sort results := hr
    rw [Result.sort_eq, Finset.mem_sort, List.mem_toFinset] at hmem
    exact h r hmem
  | ranked results =>
    rw [hkept] at h hr
    exact h r hr

end Collector

/-- What is true at the start and kept by every shape around the target. -/
lemma Request.interiors_induction {q : Request} {motive : Collector → Prop}
    (hempty : motive
      (Collector.empty q.settings.maxResults q.settings.maxError q.settings.maxDistance))
    (hadd : ∀ c, motive c → ∀ id ∈ q.containing q.settings.maxResults,
      motive (c.add (Result.interior (id : ℕ)))) : motive q.interiors := by
  simp only [interiors]
  split
  · exact List.foldlRecOn _ _ hempty hadd
  · exact hempty

/-- What measuring any edge that the index lists preserves holds after the search, be it by brute
force or by the best-first search. -/
lemma Request.searched_induction {q : Request} {motive : Collector → Prop} {limit : Chord}
    {found : Collector}
    (h : ∀ r, q.index.Lists r → ∀ s : State,
      motive s.found → motive ((q.plan limit).measureEdge s r).found)
    (hs : motive found) :
    motive (if q.usesBruteForce then (q.plan limit).bruteForce found
      else (q.plan limit).bestFirst found) := by
  split
  · exact Plan.offerAll_induction (fun r hr => h r (Or.inl hr)) hs
  · exact Plan.bestFirst_induction (fun cell r hr => h r (Or.inr ⟨cell, hr⟩)) hs

/-- **Where results come from.**  What is true of the shapes around the target and of every edge
of the index at a distance that was measured is true of all results. -/
theorem Request.forall_run {q : Request} {P : Result → Prop}
    (hinterior : ∀ id ∈ q.containing q.settings.maxResults, P (Result.interior (id : ℕ)))
    (hedge : ∀ r, q.index.Lists r → ∀ m d : Chord, q.measure.toEdge r.edge m = some d →
      P ⟨d, r.shapeId, r.edgeId⟩) :
    ∀ r ∈ q.run, P r := by
  have hinteriors : q.interiors.kept.All P :=
    interiors_induction (motive := fun c => c.kept.All P) (Collector.all_empty _ _ _)
      fun _ hc id hid => Collector.all_add hc (hinterior id hid)
  intro r hr
  unfold run at hr
  split at hr
  · exact absurd hr List.not_mem_nil
  · dsimp only at hr
    split at hr
    · exact Collector.of_mem_results hinteriors hr
    · refine Collector.of_mem_results (searched_induction (motive := fun c => c.kept.All P)
        (fun r hr s hs => ?_) hinteriors) hr
      exact Plan.measureEdge_induction (motive := fun c => c.kept.All P) hs
        fun d hd => Collector.all_add hs (hedge r hr _ d hd)

/-! ### Distances -/

lemma Site.zero_le_of_toEdge {s : Site} {e : Edge} {m d : Chord}
    (h : s.measure.toEdge e m = some d) : Chord.zero ≤ d := by
  cases s with
  | point p => exact Edge.zero_le_of_closerPoint? h
  | edge f => exact Edge.zero_le_of_closerEdge? h
  | cell c =>
    rw [(Closer.eq_some_of_ofChord h).2]
    simp only [Cell.distanceToEdge]
    split
    · exact le_refl _
    · refine Closer.le_distance ?_
      intro m d hd
      obtain ⟨test, htest, m', hm'⟩ := Closer.exists_of_chain hd
      obtain ⟨side, -, rfl⟩ := List.mem_map.1 htest
      exact Edge.zero_le_of_closerEdge? hm'

/-- All results of a search near a simple target are at distance zero or more. -/
lemma Site.zero_le_of_mem_search {s : Site} {x : Index} {settings : Settings} {threshold : ℕ}
    {r : Result} (h : r ∈ s.search x settings threshold) : Chord.zero ≤ r.distance :=
  Request.forall_run (P := fun r => Chord.zero ≤ r.distance) (fun _ _ => le_refl Chord.zero)
    (fun _ _ _ _ => zero_le_of_toEdge) r h

/-- **Distances are not negative.**  No target reports a distance below zero. -/
theorem Target.zero_le_of_toEdge {t : Target} {e : Edge} {m d : Chord}
    (h : t.measure.toEdge e m = some d) : Chord.zero ≤ d := by
  cases t with
  | site s => exact Site.zero_le_of_toEdge h
  | index t =>
    have hcloser : t.closer? (.edge e) m = some d := h
    simp only [IndexTarget.closer?] at hcloser
    split at hcloser
    · exact absurd hcloser (by simp)
    · rename_i r rest hsearch
      split at hcloser
      · exact absurd hcloser (by simp)
      · rw [← Option.some.inj hcloser]
        exact Site.zero_le_of_mem_search (hsearch ▸ List.mem_cons_self)

end Search

end SphereSearch
