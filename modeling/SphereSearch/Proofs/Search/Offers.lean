import SphereSearch.Proofs.Search.Collector
import SphereSearch.Proofs.Search.Progress
import SphereSearch.Search.Request

/-!
# Offering edges

When every edge has one distance, whatever limit it is measured against (`Plan.Exact`), an
offered edge either becomes a result or is settled by those before it, and nothing that was
settled becomes unsettled.  `Offered` says what is known of a collector on the way: the results
offered so far are among the possible answers.  The account of such a search
(`Plan.Exact.ledger`) is that the results of all edges dealt with are settled.
-/

namespace SphereSearch

/-- The result for an edge at the distance that it is given. -/
def EdgeRef.result (D : EdgeRef → Chord) (r : EdgeRef) : Search.Result :=
  ⟨D r, r.shapeId, r.edgeId⟩

namespace Search

/-- Edges are measured without an error, each as often as it is met, and the distance of an edge
does not depend on the limit. -/
structure Plan.Exact (p : Plan) (D : EdgeRef → Chord) : Prop where
  once_eq : p.once = false
  slack_eq : p.slack? = none
  toEdge_eq : ∀ r ∈ p.index.edges, p.measure.toEdge r.edge = Closer.ofChord (D r)

/-- A collector of `k` results without an allowance for error, started with the limit `M`, has
been offered the results in `S`, all of them among those in `T`. -/
structure Offered (k : ℕ) (T : Finset Result) (M : Chord) (c : Collector) (S : Finset Result) :
    Prop where
  serves : c.Serves k Chord.zero M S
  subset : S ⊆ T

namespace Offered

variable {k : ℕ} {T S : Finset Result} {M : Chord} {c : Collector} {p : Plan}
  {D : EdgeRef → Chord}

lemma add (h : Offered k T M c S) {r : Result} (hr : r.distance < M) (hT : r ∈ T) :
    Offered k T M (c.add r) (insert r S) :=
  ⟨h.serves.add hr, Finset.insert_subset hT h.subset⟩

lemma mono (h : Offered k T M c S) {T' : Finset Result} (hT : T ⊆ T') : Offered k T' M c S :=
  ⟨h.serves, h.subset.trans hT⟩

/-- What is not below the limit is settled. -/
lemma settled_of_limit_le (h : Offered k T M c S) {r : Result} (hr : r.distance < M)
    (hlimit : c.limit ≤ r.distance) : Settled k S r :=
  Or.inr (h.serves.capacity_eq ▸
    h.serves.represents.beaten_of_limit_le h.serves.maxError_eq hr hlimit)

/-- When all possible answers are settled, the collector holds the first of them. -/
lemma results_eq (h : Offered k T M c S) (hT : ∀ r ∈ T, Settled k S r) :
    c.results = firstOf k T.sort := by
  rw [firstOf_sort_eq h.subset hT, h.serves.results_eq]

/-- The limit of a collector stays above zero if all results are at distance zero or more. -/
lemma zero_lt_limit (h : Offered k T M c S) (hM : Chord.zero < M)
    (hT : ∀ r ∈ T, Chord.zero ≤ r.distance) : Chord.zero < c.limit := by
  by_cases hfull : Full c.capacity S
  · obtain ⟨worst, hw, hlimit⟩ := h.serves.represents.limit_of_full hfull
    obtain ⟨hS, hlt⟩ := h.serves.represents.mem_of_worst hw
    rw [hlimit, ← not_le, Collector.cutoff_le_iff h.serves.maxError_eq hlt, not_lt]
    exact hT worst (h.subset hS)
  · rw [h.serves.represents.limit_of_not_full hfull]
    exact hM

/-! ### Edges -/

/-- **One edge.**  After an edge has been offered its result is settled, if it is within the
limit at all, and so is what was settled before. -/
lemma offer (he : p.Exact D) {s : State} {r : EdgeRef} (hr : r ∈ p.index.edges)
    (hT : D r < M → r.result D ∈ T) (h : Offered k T M s.found S) :
    ∃ S', S ⊆ S' ∧ Offered k T M (p.offer s r).found S' ∧
      (D r < M → Settled k S' (r.result D)) := by
  rw [Plan.offer_eq_measureEdge he.once_eq]
  simp only [Plan.measureEdge]
  rw [he.toEdge_eq r hr, Closer.ofChord]
  by_cases hlt : D r < s.found.limit
  · rw [if_pos hlt]
    have hM : D r < M := hlt.trans_le (h.serves.limit_le (absurd rfl))
    exact ⟨insert (r.result D) S, Finset.subset_insert _ S, h.add hM (hT hM),
      fun _ => Or.inl (Finset.mem_insert_self _ S)⟩
  · rw [if_neg hlt]
    exact ⟨S, Finset.Subset.refl S, h, fun hM => h.settled_of_limit_le hM (not_lt.1 hlt)⟩

end Offered

/-- The account of a search without an allowance for error, which started from the results in
`base`.  An edge may be left out once the limit has fallen to its distance. -/
def Plan.Exact.ledger {p : Plan} {D : EdgeRef → Chord} (he : p.Exact D) (k : ℕ)
    (base : Finset Result) {T : Finset Result} {M : Chord}
    (hT : ∀ r ∈ p.index.edges, D r < M → r.result D ∈ T) : p.Ledger where
  first := M
  Dealt s E := ∃ S, base ⊆ S ∧ Offered k T M s.found S ∧
    ∀ r ∈ p.index.edges, r ∈ E → D r < M → Settled k S (r.result D)
  Fair r d := d ≤ D r
  limit_le := by
    rintro s E ⟨S, -, h, -⟩
    exact h.serves.limit_le (absurd rfl)
  requeue _ h := h
  offer := by
    rintro s E r hr ⟨S, hbase, h, hsettled⟩
    obtain ⟨S', hS, h', hnew⟩ := h.offer he hr (hT r hr)
    refine ⟨S', hbase.trans hS, h', ?_⟩
    intro e he hmem hM
    rcases Set.mem_insert_iff.1 hmem with rfl | hmem
    · exact hnew hM
    · exact (hsettled e he hmem hM).mono hS
  leave := by
    rintro s E ⟨S, hbase, h, hsettled⟩
    refine ⟨S, hbase, h, ?_⟩
    rintro r hr (hmem | ⟨d, hd, hlimit⟩) hM
    · exact hsettled r hr hmem hM
    · exact h.settled_of_limit_le hM (hlimit.trans hd)

end Search

end SphereSearch
