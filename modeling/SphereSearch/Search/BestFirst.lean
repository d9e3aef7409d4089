import SphereSearch.Search.Collector
import SphereSearch.Search.Heap
import SphereSearch.Search.Regions

/-!
# Two ways to search

A search knows of its target only what a `Measure` tells: distances to edges, bounds on the
distances to cells, and a cap around it.  There are two ways to search.  Brute force offers
every edge of the index to a `Collector`.  The best-first search keeps a queue of regions by
the bound on their distance, takes the closest one, and either offers its edges or queues its
quarters; it ends when the closest region is no closer than the limit of the collector.

`Plan.step` is one turn of the best-first search.  Each turn makes the queue lighter
(`Plan.weight_step_lt`), so the search ends.
-/

namespace SphereSearch

/-- What a search can ask of its target. -/
structure Measure where
  /-- A cap that holds the target. -/
  cap : Cap
  /-- The number of edges up to which measuring all of them is as fast as a search. -/
  bruteForceSize : Nat
  /-- The distance to an edge, if it is below the limit. -/
  toEdge : Edge → Closer
  /-- A bound on the distance to all edges in a cell, if it is below the limit. -/
  toCell : Cell → Closer

namespace Search

/-- A region that waits to be searched. -/
structure Entry where
  /-- The bound on its distance. -/
  distance : Chord
  /-- The region. -/
  region : Region

/-- Whether the first entry is to be searched before the second: by distance, then by cell. -/
def Entry.before (a b : Entry) : Bool :=
  (compare a.distance b.distance).then
    ((compare a.region.id b.region.id).then
      (compare a.region.position? b.region.position?)) ≠ .gt

/-- What stays the same during a search. -/
structure Plan where
  /-- The index that is searched. -/
  index : Index
  /-- What can be asked of the target. -/
  measure : Measure
  /-- What is subtracted from the bound on a region's distance, if anything. -/
  slack? : Option Chord
  /-- Whether an edge is measured only when it is first met. -/
  once : Bool

/-- How far a search has come. -/
structure State where
  /-- The results so far. -/
  found : Collector
  /-- The edges met so far, if they are to be measured once. -/
  met : List (Nat × Nat)
  /-- The regions that wait. -/
  queue : Heap Entry

/-- The number of regions that a search can still meet. -/
def State.weight (s : State) : Nat := Region.total (s.queue.toList.map Entry.region)

namespace Plan

/-- An index cell with fewer edges is searched at once and not queued. -/
def minQueuedEdges : Nat := 10

/-- Measures an edge and collects it if it is closer than the limit. -/
def measureEdge (p : Plan) (s : State) (r : EdgeRef) : State :=
  match p.measure.toEdge r.edge s.found.limit with
  | some d => { s with found := s.found.add ⟨d, r.shapeId, r.edgeId⟩ }
  | none => s

/-- Measures an edge, unless it was met before and edges are measured once. -/
def offer (p : Plan) (s : State) (r : EdgeRef) : State :=
  if p.once then
    if s.met.contains (r.shapeId, r.edgeId) then s
    else p.measureEdge { s with met := (r.shapeId, r.edgeId) :: s.met } r
  else p.measureEdge s r

/-- Offers the edges of an index cell. -/
def visit (p : Plan) (s : State) (cell : IndexCell) : State :=
  (p.index.edgesOf cell).foldl p.offer s

/-- Queues a region if the bound on its distance is below the limit. -/
def queue (p : Plan) (s : State) (r : Region) : State :=
  match p.measure.toCell (Cell.ofId r.id) s.found.limit with
  | some d =>
    let d := match p.slack? with
      | some error => d - error
      | none => d
    { s with queue := s.queue.push Entry.before ⟨d, r⟩ }
  | none => s

/-- Takes up a region.  An index cell without edges is dropped, and one with few is visited at
once. -/
def takeUp (p : Plan) (s : State) (r : Region) : State :=
  match r.position?.bind (p.index.cells[·]?) with
  | some cell =>
    if cell.edgeCount = 0 then s
    else if cell.edgeCount < minQueuedEdges then p.visit s cell
    else p.queue s r
  | none => p.queue s r

/-- Searches a region that was queued. -/
def expand (p : Plan) (s : State) (r : Region) : State :=
  match r.position? with
  | some position =>
    match p.index.cells[position]? with
    | some cell => p.visit s cell
    | none => s
  | none => (p.index.regionsInside r.id).foldl p.takeUp s

/-- One turn of the best-first search; `none` when it is over. -/
def step (p : Plan) (s : State) : Option State :=
  match s.queue.pop? Entry.before with
  | none => none
  | some (entry, rest) =>
    if entry.distance ≥ s.found.limit then none
    else some (p.expand { s with queue := rest } entry.region)

/-- What a turn does: the closest region is searched, and it was closer than the limit. -/
theorem exists_of_step_eq_some {p : Plan} {s next : State} (h : p.step s = some next) :
    ∃ entry rest, s.queue.pop? Entry.before = some (entry, rest) ∧
      ¬ s.found.limit ≤ entry.distance ∧
      next = p.expand { s with queue := rest } entry.region := by
  cases hpop : s.queue.pop? Entry.before with
  | none => simp [step, hpop] at h
  | some popped =>
    obtain ⟨entry, rest⟩ := popped
    by_cases hlimit : s.found.limit ≤ entry.distance
    · simp [step, hpop, hlimit] at h
    · simp [step, hpop, hlimit] at h
      exact ⟨entry, rest, rfl, hlimit, h.symm⟩

/-- When there is no further turn, nothing waits that is closer than the limit. -/
theorem le_of_step_eq_none {p : Plan} {s : State} (h : p.step s = none) {entry : Entry}
    {rest : Heap Entry} (hpop : s.queue.pop? Entry.before = some (entry, rest)) :
    s.found.limit ≤ entry.distance := by
  by_cases hlimit : s.found.limit ≤ entry.distance
  · exact hlimit
  · simp [step, hpop, hlimit] at h

/-- Edges that are not to be measured once are measured whenever they are met. -/
theorem offer_eq_measureEdge {p : Plan} (h : p.once = false) (s : State) (r : EdgeRef) :
    p.offer s r = p.measureEdge s r := by
  simp [offer, h]

@[simp] theorem met_measureEdge (p : Plan) (s : State) (r : EdgeRef) :
    (p.measureEdge s r).met = s.met := by
  unfold measureEdge
  split <;> rfl

/-! ## The search ends -/

@[simp] theorem queue_measureEdge (p : Plan) (s : State) (r : EdgeRef) :
    (p.measureEdge s r).queue = s.queue := by
  unfold measureEdge
  split <;> rfl

@[simp] theorem queue_offer (p : Plan) (s : State) (r : EdgeRef) :
    (p.offer s r).queue = s.queue := by
  unfold offer
  split
  · split
    · rfl
    · simp
  · simp

@[simp] theorem queue_visit (p : Plan) (s : State) (cell : IndexCell) :
    (p.visit s cell).queue = s.queue := by
  unfold visit
  generalize p.index.edgesOf cell = edges
  induction edges generalizing s with
  | nil => rfl
  | cons r rest ih => rw [List.foldl_cons, ih, queue_offer]

/-- Visiting an index cell queues nothing. -/
@[simp] theorem weight_visit (p : Plan) (s : State) (cell : IndexCell) :
    (p.visit s cell).weight = s.weight := by
  simp [State.weight]

/-- Queueing a region adds at most its weight. -/
theorem weight_queue_le (p : Plan) (s : State) (r : Region) :
    (p.queue s r).weight ≤ s.weight + r.weight := by
  unfold queue
  split
  · rename_i d _
    dsimp only
    generalize (match p.slack? with | some error => d - error | none => d) = bound
    have := Region.total_perm ((s.queue.toList_push Entry.before ⟨bound, r⟩).map Entry.region)
    simp only [List.map_cons, Region.total_cons] at this
    simp only [State.weight]
    omega
  · omega

/-- Taking up a region adds at most its weight. -/
theorem weight_takeUp_le (p : Plan) (s : State) (r : Region) :
    (p.takeUp s r).weight ≤ s.weight + r.weight := by
  unfold takeUp
  split
  · split
    · omega
    · split
      · simp
      · exact p.weight_queue_le s r
  · exact p.weight_queue_le s r

/-- Taking up several regions adds at most their weights. -/
theorem weight_foldl_takeUp_le (p : Plan) (s : State) (regions : List Region) :
    (regions.foldl p.takeUp s).weight ≤ s.weight + Region.total regions := by
  induction regions generalizing s with
  | nil => simp
  | cons r rest ih =>
    have h1 := ih (p.takeUp s r)
    have h2 := p.weight_takeUp_le s r
    simp only [List.foldl_cons, Region.total_cons]
    omega

/-- Searching a region adds less than its weight. -/
theorem weight_expand_lt (p : Plan) (s : State) (r : Region) :
    (p.expand s r).weight < s.weight + r.weight := by
  have hpos := r.weight_pos
  unfold expand
  split
  · split
    · simp only [weight_visit]; omega
    · omega
  · rename_i hnone
    have h1 := p.weight_foldl_takeUp_le s (p.index.regionsInside r.id)
    have h2 := Region.total_regionsInside_lt p.index r.id
    have h3 : r.weight = 5 ^ (r.id.height + 1) := by simp [Region.weight, hnone]
    omega

/-- Each turn makes the queue lighter. -/
theorem weight_step_lt {p : Plan} {s next : State} (h : p.step s = some next) :
    next.weight < s.weight := by
  obtain ⟨entry, rest, hpop, -, rfl⟩ := exists_of_step_eq_some h
  have h1 := p.weight_expand_lt { s with queue := rest } entry.region
  have h2 := Region.total_perm ((Heap.toList_of_pop? hpop).map Entry.region)
  simp only [List.map_cons, Region.total_cons] at h2
  simp only [State.weight] at h1 ⊢
  omega

/-- Takes turns until the search is over. -/
def drain (p : Plan) (s : State) : State :=
  match _h : p.step s with
  | none => s
  | some next => drain p next
termination_by s.weight
decreasing_by exact weight_step_lt _h

/-! ## The two ways to search -/

/-- Offers edges one after the other. -/
def offerAll (p : Plan) (found : Collector) (edges : List EdgeRef) : Collector :=
  (edges.foldl p.offer ⟨found, [], .empty⟩).found

/-- Offers every edge of the index. -/
def bruteForce (p : Plan) (found : Collector) : Collector := p.offerAll found p.index.edges

/-- Whether the limit leaves nothing to be found. -/
def isDone (found : Collector) : Bool := found.limit ≤ Chord.zero

/-- Visits the index cell that holds the centre of the target, if there is one.  When a single
result is wanted this usually finds it, and what follows only confirms it. -/
def visitCenter (p : Plan) (s : State) : State :=
  match p.index.locate (CellId.ofPoint p.measure.cap.center) with
  | .indexed position =>
    match p.index.cells[position]? with
    | some cell => p.visit s cell
    | none => s
  | _ => s

/-- The state before the first turn: the regions of the covering have been taken up. -/
def start (p : Plan) (found : Collector) : State :=
  let s : State := ⟨found, [], .empty⟩
  if p.measure.cap.isEmpty then s
  else
    let s := if found.capacity = 1 then p.visitCenter s else s
    if found.capacity = 1 && isDone s.found then s
    else p.index.covering.foldl p.takeUp s

/-- Searches the closest regions first. -/
def bestFirst (p : Plan) (found : Collector) : Collector := (p.drain (p.start found)).found

end Plan

end Search

end SphereSearch
