import Mathlib.Data.Set.Insert
import SphereSearch.Proofs.Index.Covering
import SphereSearch.Proofs.Search.HeapOrder
import SphereSearch.Search.BestFirst

/-!
# The search loses no edge

A search leaves edges and whole regions out, so it has to give a reason for each edge that it
never measures.  Which reasons count depends on what is claimed of the answer: without an
allowance for error an edge may be left out only if there are enough results before it, and with
one also if it is hardly closer than the results.  A `Plan.Ledger` says which edges have been
dealt with and which bounds are fair to an edge, and what follows here holds of any ledger.

At every turn of the best-first search each edge has been dealt with, or a region that leads to
it waits with a bound that is fair to it (`Ledger.Underway`).  A turn keeps this
(`Ledger.Underway.step`).  When the closest region that waits is no closer than the limit, the
edges behind it may be left out, and so all edges have been dealt with (`Ledger.bestFirst`).
-/

namespace SphereSearch.Search.Plan

/-- The bound that a region waits with if the target reports the given one. -/
def reduce (p : Plan) (d : Chord) : Chord :=
  match p.slack? with
  | some error => d - error
  | none => d

/-- An account of the edges that a search has dealt with. -/
structure Ledger (p : Plan) where
  /-- The limit is never above this one. -/
  first : Chord
  /-- All these edges have been dealt with when the search has come so far. -/
  Dealt : State → Set EdgeRef → Prop
  /-- A region may wait with this bound although it leads to the edge. -/
  Fair : EdgeRef → Chord → Prop
  limit_le : ∀ {s E}, Dealt s E → s.found.limit ≤ first
  /-- Only the queue changes. -/
  requeue : ∀ {s E} (queue : Heap Entry), Dealt s E → Dealt { s with queue := queue } E
  /-- An edge has been dealt with once it was offered. -/
  offer : ∀ {s E r}, r ∈ p.index.edges → Dealt s E → Dealt (p.offer s r) (insert r E)
  /-- Edges may be left out if the limit has fallen to a bound that is fair to them. -/
  leave : ∀ {s E}, Dealt s E → Dealt s (E ∪ {r | ∃ d, Fair r d ∧ s.found.limit ≤ d})

namespace Ledger

variable {p : Plan} (L : p.Ledger)

/-- An index cell lists an edge, and neither this cell nor any cell of the grid around it hides
the edge: whatever the limit is, the target reports a bound which is fair to the edge, or the
limit has fallen to such a bound. -/
def Shows (r : EdgeRef) (cell : IndexCell) : Prop :=
  r ∈ p.index.edgesOf cell ∧ ∀ level ≤ cell.id.level, ∀ m ≤ L.first,
    (∃ v, p.measure.toCell (Cell.ofId (cell.id.parentAt level)) m = some v ∧
      L.Fair r (p.reduce v)) ∨ ∃ d, L.Fair r d ∧ m ≤ d

/-- From a region one gets to an index cell that shows the edge. -/
def Leads (r : EdgeRef) (region : Region) : Prop :=
  ∃ i cell, p.index.cells[i]? = some cell ∧ L.Shows r cell ∧ region.LeadsTo p.index i

/-- A region waits that leads to the edge, and it waits with a bound that is fair to it. -/
def Waits (s : State) (r : EdgeRef) : Prop :=
  ∃ entry ∈ s.queue.toList, L.Fair r entry.distance ∧ L.Leads r entry.region

/-- The search has come from one state, where the edges in `E` had been dealt with, to another
one, where those in `E'` have been, and the edges with the property `Q` are among these, or they
wait. -/
structure Onward (E E' : Set EdgeRef) (Q : EdgeRef → Prop) (s s' : State) : Prop where
  subset : E ⊆ E'
  dealt : L.Dealt s' E'
  ordered : s'.queue.Ordered Entry.distance
  mem_queue : ∀ entry ∈ s.queue.toList, entry ∈ s'.queue.toList
  dealt_or_waits : ∀ r ∈ p.index.edges, Q r → r ∈ E' ∨ L.Waits s' r

variable {L} {E E' E'' : Set EdgeRef} {Q Q' : EdgeRef → Prop} {s s' s'' : State}

namespace Onward

lemma refl (h : L.Dealt s E) (ho : s.queue.Ordered Entry.distance) :
    L.Onward E E (fun _ => False) s s where
  subset := subset_rfl
  dealt := h
  ordered := ho
  mem_queue _ he := he
  dealt_or_waits _ _ hQ := hQ.elim

/-- What has been dealt with stays so. -/
lemma trans (h : L.Onward E E' Q s s') (h' : L.Onward E' E'' Q' s' s'') :
    L.Onward E E'' (fun r => Q r ∨ Q' r) s s'' where
  subset := h.subset.trans h'.subset
  dealt := h'.dealt
  ordered := h'.ordered
  mem_queue entry he := h'.mem_queue entry (h.mem_queue entry he)
  dealt_or_waits := by
    rintro r hr (hQ | hQ)
    · rcases h.dealt_or_waits r hr hQ with hdealt | ⟨entry, he, hfair, hleads⟩
      · exact Or.inl (h'.subset hdealt)
      · exact Or.inr ⟨entry, h'.mem_queue entry he, hfair, hleads⟩
    · exact h'.dealt_or_waits r hr hQ

lemma imp (h : L.Onward E E' Q s s') (hQ : ∀ r, Q' r → Q r) : L.Onward E E' Q' s s' where
  subset := h.subset
  dealt := h.dealt
  ordered := h.ordered
  mem_queue := h.mem_queue
  dealt_or_waits r hr hr' := h.dealt_or_waits r hr (hQ r hr')

end Onward

/-- **Several edges**, offered one after the other, have been dealt with. -/
lemma foldl_offer {rs : List EdgeRef} (hrs : ∀ r ∈ rs, r ∈ p.index.edges) (h : L.Dealt s E) :
    ∃ E', E ⊆ E' ∧ L.Dealt (rs.foldl p.offer s) E' ∧ ∀ r ∈ rs, r ∈ E' := by
  induction rs generalizing s E with
  | nil => exact ⟨E, subset_rfl, h, by simp⟩
  | cons r rest ih =>
    obtain ⟨E', hE, h', hrest⟩ := ih (fun e he => hrs e (List.mem_cons_of_mem _ he))
      (L.offer (hrs r List.mem_cons_self) h)
    refine ⟨E', (Set.subset_insert r E).trans hE, h', ?_⟩
    intro e he
    rcases List.mem_cons.1 he with rfl | he
    · exact hE (Set.mem_insert e E)
    · exact hrest e he

/-! ### What one turn does -/

/-- A region that is an index cell leads to what this cell lists. -/
lemma Leads.mem_edgesOf {r : EdgeRef} {region : Region} (hleads : L.Leads r region)
    {position : ℕ} (hpos : region.position? = some position) {cell : IndexCell}
    (hcell : p.index.cells[position]? = some cell) : r ∈ p.index.edgesOf cell := by
  obtain ⟨i, other, hother, hshows, hleads⟩ := hleads
  cases hleads with
  | here c hc =>
    obtain rfl : i = position := Option.some.inj hpos
    rw [hother] at hcell
    exact Option.some.inj hcell ▸ hshows.1
  | above => exact absurd hpos (by simp)

/-- An index cell without edges lists none. -/
lemma not_mem_edgesOf {x : Index} {cell : IndexCell} (hcount : cell.edgeCount = 0)
    (r : EdgeRef) : r ∉ x.edgesOf cell := by
  intro hr
  obtain ⟨⟨s, hs, -, he⟩, -⟩ := Index.mem_edgesOf.1 hr
  have hle := IndexCell.length_le_edgeCount hs
  have hzero : s.edges.length = 0 := by omega
  rw [List.eq_nil_of_length_eq_zero hzero] at he
  exact absurd he List.not_mem_nil

section Turn

variable (hx : p.index.WellFormed) (h : L.Dealt s E) (ho : s.queue.Ordered Entry.distance)

include hx h ho

/-- Visiting an index cell deals with the edges that it lists. -/
lemma onward_visit (cell : IndexCell) :
    ∃ E', L.Onward E E' (· ∈ p.index.edgesOf cell) s (p.visit s cell) := by
  obtain ⟨E', hE, h', hmem⟩ := foldl_offer (hx.mem_edges cell) h
  refine ⟨E', hE, h', ?_, ?_, fun r _ hr => Or.inl (hmem r hr)⟩
  · rw [queue_visit]
    exact ho
  · rw [queue_visit]
    exact fun _ he => he

/-- Edges to which a region leads wait if the region is queued, and they may be left out if it is
not. -/
lemma onward_queue (region : Region) :
    ∃ E', L.Onward E E' (L.Leads · region) s (p.queue s region) := by
  -- The region is the index cell that shows the edge, or a cell of the grid around it.
  have hbound : ∀ r, L.Leads r region →
      (∃ v, p.measure.toCell (Cell.ofId region.id) s.found.limit = some v ∧
        L.Fair r (p.reduce v)) ∨ ∃ d, L.Fair r d ∧ s.found.limit ≤ d := by
    rintro r ⟨i, cell, hcell, ⟨-, hbounds⟩, hleads⟩
    obtain ⟨level, hlevel, hid⟩ := hleads.exists_eq_parentAt hx.tiled hcell
    rw [hid]
    exact hbounds level hlevel _ (L.limit_le h)
  refine ⟨E ∪ {r | ∃ d, L.Fair r d ∧ s.found.limit ≤ d}, Set.subset_union_left, ?_, ?_, ?_, ?_⟩
  · simp only [queue]
    split
    · exact L.requeue _ (L.leave h)
    · exact L.leave h
  · simp only [queue]
    split
    · exact ho.push Entry.respects_before _
    · exact ho
  · simp only [queue]
    split
    · exact fun entry hmem => Heap.mem_toList_push.2 (Or.inr hmem)
    · exact fun _ hmem => hmem
  · intro r _ hleads
    rcases hbound r hleads with ⟨v, hv, hfair⟩ | hfair
    · right
      simp only [queue]
      rw [hv]
      exact ⟨⟨p.reduce v, region⟩, Heap.mem_toList_push.2 (Or.inl rfl), hfair, hleads⟩
    · exact Or.inl (Or.inr hfair)

/-- Taking up a region deals with all edges that it leads to. -/
lemma onward_takeUp (region : Region) :
    ∃ E', L.Onward E E' (L.Leads · region) s (p.takeUp s region) := by
  simp only [takeUp]
  split
  · rename_i cell hbind
    obtain ⟨position, hpos, hcell⟩ := Option.bind_eq_some_iff.1 hbind
    have hlists : ∀ r, L.Leads r region → r ∈ p.index.edgesOf cell :=
      fun r hleads => hleads.mem_edgesOf hpos hcell
    split
    · rename_i hcount
      exact ⟨E, (Onward.refl h ho).imp fun r hleads => not_mem_edgesOf hcount r (hlists r hleads)⟩
    · split
      · obtain ⟨E', hE'⟩ := onward_visit hx h ho cell
        exact ⟨E', hE'.imp hlists⟩
      · exact onward_queue hx h ho region
  · exact onward_queue hx h ho region

/-- Taking up several regions deals with all edges that any of them leads to. -/
lemma onward_foldl_takeUp (regions : List Region) :
    ∃ E', L.Onward E E' (fun r => ∃ region ∈ regions, L.Leads r region) s
      (regions.foldl p.takeUp s) := by
  induction regions generalizing s E with
  | nil => exact ⟨E, (Onward.refl h ho).imp (by simp)⟩
  | cons region rest ih =>
    obtain ⟨E₁, h₁⟩ := onward_takeUp hx h ho region
    obtain ⟨E₂, h₂⟩ := ih h₁.dealt h₁.ordered
    refine ⟨E₂, (h₁.trans h₂).imp ?_⟩
    rintro r ⟨other, hmem, hleads⟩
    rcases List.mem_cons.1 hmem with rfl | hmem
    · exact Or.inl hleads
    · exact Or.inr ⟨other, hmem, hleads⟩

/-- Searching a region deals with all edges that it leads to. -/
lemma onward_expand (region : Region) :
    ∃ E', L.Onward E E' (L.Leads · region) s (p.expand s region) := by
  simp only [expand]
  split
  · rename_i position hpos
    split
    · rename_i cell hcell
      obtain ⟨E', hE'⟩ := onward_visit hx h ho cell
      exact ⟨E', hE'.imp fun r hleads => hleads.mem_edgesOf hpos hcell⟩
    · rename_i hnone
      refine ⟨E, (Onward.refl h ho).imp ?_⟩
      rintro r ⟨i, cell, hcell, -, hleads⟩
      cases hleads with
      | here c hc =>
        obtain rfl : i = position := Option.some.inj hpos
        rw [hnone] at hcell
        exact absurd hcell (by simp)
      | above => exact absurd hpos (by simp)
  · rename_i hpos
    obtain ⟨E', hE'⟩ := onward_foldl_takeUp hx h ho (p.index.regionsInside region.id)
    refine ⟨E', hE'.imp ?_⟩
    rintro r ⟨i, cell, hcell, hshows, hleads⟩
    obtain ⟨id, position?⟩ := region
    obtain rfl : position? = none := hpos
    obtain ⟨inner, hmem, hinner⟩ := Index.exists_mem_regionsInside hx.tiled hleads
    exact ⟨inner, hmem, i, cell, hcell, hshows, hinner⟩

end Turn

/-! ### Turn after turn -/

/-- The search is underway: every edge has been dealt with, or waits. -/
structure Underway (L : p.Ledger) (E : Set EdgeRef) (s : State) : Prop where
  dealt : L.Dealt s E
  ordered : s.queue.Ordered Entry.distance
  dealt_or_waits : ∀ r ∈ p.index.edges, r ∈ E ∨ L.Waits s r

/-- **One turn.**  A turn of the search loses no edge. -/
theorem Underway.step (hx : p.index.WellFormed) (h : L.Underway E s) (hstep : p.step s = some s') :
    ∃ E', E ⊆ E' ∧ L.Underway E' s' := by
  obtain ⟨entry, rest, hpop, -, rfl⟩ := exists_of_step_eq_some hstep
  have hrest : rest.Ordered Entry.distance := h.ordered.of_pop? Entry.respects_before hpop
  obtain ⟨E', hE'⟩ := onward_expand hx (L.requeue rest h.dealt) hrest entry.region
  refine ⟨E', hE'.subset, hE'.dealt, hE'.ordered, ?_⟩
  intro r hr
  rcases h.dealt_or_waits r hr with hdealt | ⟨other, hmem, hfair, hleads⟩
  · exact Or.inl (hE'.subset hdealt)
  · -- The region that leads to the edge is the one searched now, or it still waits.
    rw [(Heap.toList_of_pop? hpop).mem_iff] at hmem
    rcases List.mem_cons.1 hmem with rfl | hmem
    · exact hE'.dealt_or_waits r hr hleads
    · exact Or.inr ⟨other, hE'.mem_queue other hmem, hfair, hleads⟩

/-- **The last turn.**  When the search is over, the edges that wait may be left out. -/
theorem Underway.over (h : L.Underway E s) (hstep : p.step s = none) :
    ∃ E', L.Dealt s E' ∧ ∀ r ∈ p.index.edges, r ∈ E' := by
  refine ⟨_, L.leave h.dealt, ?_⟩
  intro r hr
  rcases h.dealt_or_waits r hr with hdealt | ⟨entry, hmem, hfair, -⟩
  · exact Or.inl hdealt
  · -- What would be searched next is not below the limit, and all that waits is behind it.
    obtain ⟨first, rest, hpop⟩ := Heap.exists_pop? Entry.before hmem
    exact Or.inr ⟨entry.distance, hfair,
      (le_of_step_eq_none hstep hpop).trans (h.ordered.le_of_pop? hpop hmem)⟩

/-- A search that is underway comes to its end with all edges dealt with. -/
lemma Underway.drain (hx : p.index.WellFormed) (h : L.Underway E s) :
    ∃ E', L.Dealt (p.drain s) E' ∧ ∀ r ∈ p.index.edges, r ∈ E' := by
  fun_induction Plan.drain p s generalizing E with
  | case1 s hover => exact h.over hover
  | case2 s next hstep ih =>
    obtain ⟨E', -, h'⟩ := h.step hx hstep
    exact ih h'

/-- Before the first turn, every edge has been dealt with, or waits. -/
lemma underway_start (hx : p.index.WellFormed) (hcap : p.measure.cap.isEmpty = false)
    (hzero : ∀ r ∈ p.index.edges, ∃ d, L.Fair r d ∧ Chord.zero ≤ d)
    (hshows : ∀ r ∈ p.index.edges, ∃ cell ∈ p.index.cells, L.Shows r cell)
    {found : Collector} (h : L.Dealt ⟨found, [], .empty⟩ E) :
    ∃ E', L.Underway E' (p.start found) := by
  -- Whatever has been visited before, taking up the covering deals with every edge.
  have hcovering : ∀ {s E₀}, L.Dealt s E₀ → s.queue.Ordered Entry.distance →
      ∃ E', L.Underway E' (p.index.covering.foldl p.takeUp s) := by
    intro s E₀ h₀ ho
    obtain ⟨E', hE'⟩ := onward_foldl_takeUp hx h₀ ho p.index.covering
    refine ⟨E', hE'.dealt, hE'.ordered, ?_⟩
    intro r hr
    refine hE'.dealt_or_waits r hr ?_
    obtain ⟨cell, hmem, hcell⟩ := hshows r hr
    obtain ⟨i, hi⟩ := Array.mem_iff_getElem?.1 hmem
    obtain ⟨region, hregion, hleads⟩ := Index.exists_mem_covering hx hi
    exact ⟨region, hregion, i, cell, hi, hcell, hleads⟩
  -- Once nothing closer can be found, all edges may be left out.
  have hdone : ∀ {s E₀}, L.Dealt s E₀ → s.queue.Ordered Entry.distance →
      isDone s.found = true → ∃ E', L.Underway E' s := by
    intro s E₀ h₀ ho hdone
    refine ⟨_, L.leave h₀, ho, ?_⟩
    intro r hr
    obtain ⟨d, hfair, hd⟩ := hzero r hr
    exact Or.inl (Or.inr ⟨d, hfair, (of_decide_eq_true hdone).trans hd⟩)
  have hcenter : ∃ E₀, L.Dealt (p.visitCenter ⟨found, [], .empty⟩) E₀ ∧
      (p.visitCenter ⟨found, [], .empty⟩).queue.Ordered Entry.distance := by
    simp only [visitCenter]
    split
    · split
      · rename_i cell _
        obtain ⟨E₀, h₀⟩ := onward_visit hx h trivial cell
        exact ⟨E₀, h₀.dealt, h₀.ordered⟩
      · exact ⟨E, h, trivial⟩
    · exact ⟨E, h, trivial⟩
  obtain ⟨E₀, h₀, ho⟩ := hcenter
  simp only [start]
  rw [hcap, if_neg Bool.false_ne_true]
  split
  · split
    · rename_i hend
      exact hdone h₀ ho (Bool.and_eq_true_iff.1 hend).2
    · exact hcovering h₀ ho
  · split
    · rename_i hend
      exact hdone h trivial (Bool.and_eq_true_iff.1 hend).2
    · exact hcovering h trivial

/-- **No edge is lost.**  If every edge is shown by an index cell, then the best-first search has
dealt with all edges when it ends. -/
theorem bestFirst (hx : p.index.WellFormed) (hcap : p.measure.cap.isEmpty = false)
    (hzero : ∀ r ∈ p.index.edges, ∃ d, L.Fair r d ∧ Chord.zero ≤ d)
    (hshows : ∀ r ∈ p.index.edges, ∃ cell ∈ p.index.cells, L.Shows r cell)
    {found : Collector} (h : L.Dealt ⟨found, [], .empty⟩ E) :
    ∃ E', L.Dealt (p.drain (p.start found)) E' ∧ ∀ r ∈ p.index.edges, r ∈ E' := by
  obtain ⟨E', h'⟩ := underway_start hx hcap hzero hshows h
  exact h'.drain hx

end Ledger

end SphereSearch.Search.Plan
