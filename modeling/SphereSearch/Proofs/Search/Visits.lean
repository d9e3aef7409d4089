import SphereSearch.Proofs.Search.BruteForce
import SphereSearch.Proofs.Search.HeapOrder
import SphereSearch.Proofs.Search.Journal
import SphereSearch.Proofs.Search.Run
import SphereSearch.Proofs.Sphere.Caps
import SphereSearch.Proofs.Sphere.ChordDifference

/-!
# Every index cell with edges is visited once

Whatever the limits, the bounds and the results are, a best-first search queues no cell of the grid
twice, and what it queues are index cells and cells with an index cell strictly inside them
(`Journal.orderly_of_reached`).  If nothing bounds the results, so that no region is ever left out,
then it visits each index cell with edges once, and no other one (`Journal.Thorough`).
-/

namespace SphereSearch.Search

/-! ### Results without bound -/

/-- The collector keeps everything, however far away. -/
structure Collector.Unbounded (c : Collector) : Prop where
  capacity_ne_one : c.capacity ≠ 1
  limit_eq : c.limit = Chord.infinity
  kept_eq : ∃ results, c.kept = .every results

lemma Collector.Unbounded.add {c : Collector} (h : c.Unbounded) (r : Result) :
    (c.add r).Unbounded := by
  obtain ⟨hcapacity, hlimit, results, hkept⟩ := h
  simp only [Collector.add]
  rw [hkept]
  exact ⟨hcapacity, hlimit, _, rfl⟩

/-- The shapes around the target do not bound the results. -/
lemma Request.unbounded_interiors {q : Request} (hmax : q.settings.maxResults = unlimited)
    (hdistance : q.settings.maxDistance = Chord.infinity) : q.interiors.Unbounded := by
  refine interiors_induction (motive := Collector.Unbounded) ?_ fun _ hc _ _ => hc.add _
  rw [hmax, hdistance]
  exact ⟨(by decide : unlimited ≠ 1), rfl, [], rfl⟩

/-- No measurement bounds the results. -/
lemma Plan.keeps_unbounded (p : Plan) : p.Keeps fun s => s.found.Unbounded where
  requeue _ _ hs := hs
  offer s _ r _ hs := by
    exact offer_induction (motive := Collector.Unbounded)
      (fun _ hs => measureEdge_induction hs fun _ _ => hs.add _) hs

namespace Journal

variable {p : Plan} {j next : Journal} {pending : List Region} {r : Region}

lemma waiting_visit (position : ℕ) (cell : IndexCell) :
    (visit p j position cell).waiting = j.waiting := by
  simp only [waiting, visit]
  rw [Plan.queue_visit]

/-- A region is queued, if the target reports a bound for it. -/
lemma queue_cases (r : Region) : queue p j r = j ∧
      p.measure.toCell (Cell.ofId r.id) j.state.found.limit = none ∨
    (queue p j r).waiting.Perm (r :: j.waiting) ∧ (queue p j r).queued = r :: j.queued ∧
      (queue p j r).visited = j.visited := by
  cases hcell : p.measure.toCell (Cell.ofId r.id) j.state.found.limit with
  | none =>
    refine Or.inl ⟨?_, rfl⟩
    simp only [queue]
    rw [hcell]
  | some d =>
    right
    simp only [queue, waiting, Plan.queue]
    rw [hcell]
    exact ⟨(Heap.toList_push _ _ _).map Entry.region, rfl, rfl⟩

/-! ### What is queued -/

section Orderly

variable (hx : p.index.WellFormed)

include hx

lemma orderly_queue (h : Orderly p.index j.waiting j.queued (r :: pending)) :
    Orderly p.index (queue p j r).waiting (queue p j r).queued pending := by
  rcases queue_cases (p := p) (j := j) r with ⟨hsame, -⟩ | ⟨hwaiting, hqueued, -⟩
  · rw [hsame]
    exact h.tail
  · rw [hqueued]
    exact (h.queue hx.tiled).perm hwaiting

lemma orderly_takeUp (h : Orderly p.index j.waiting j.queued (r :: pending)) :
    Orderly p.index (takeUp p j r).waiting (takeUp p j r).queued pending := by
  simp only [takeUp]
  split
  · split
    · split
      · exact h.tail
      · split
        · rw [waiting_visit]
          exact h.tail
        · exact orderly_queue hx h
    · exact orderly_queue hx h
  · exact orderly_queue hx h

lemma orderly_foldl_takeUp {rs : List Region} (h : Orderly p.index j.waiting j.queued rs) :
    Orderly p.index (rs.foldl (takeUp p) j).waiting (rs.foldl (takeUp p) j).queued [] := by
  induction rs generalizing j with
  | nil => exact h
  | cons r rest ih => exact ih (orderly_takeUp hx h)

/-- A turn keeps the order among the regions. -/
lemma orderly_turn (h : Orderly p.index j.waiting j.queued []) (hturn : Turn p j next) :
    Orderly p.index next.waiting next.queued [] := by
  obtain ⟨entry, rest, hpop, rfl⟩ := exists_of_turn hturn
  have hperm : (entry.region :: rest.toList.map Entry.region).Perm j.waiting :=
    ((Heap.toList_of_pop? hpop).map Entry.region).symm
  have hrest := h.perm hperm
  simp only [expand]
  split
  · split
    · rw [waiting_visit]
      exact hrest.pop
    · exact hrest.pop
  · exact orderly_foldl_takeUp hx (hrest.divide hx.tiled)

lemma orderly_start (found : Collector) :
    Orderly p.index (start p found).waiting (start p found).queued [] := by
  have hcenter : (visitCenter p ⟨⟨found, [], .empty⟩, [], []⟩).waiting = [] ∧
      (visitCenter p ⟨⟨found, [], .empty⟩, [], []⟩).queued = [] := by
    simp only [visitCenter]
    split
    · split
      · exact ⟨waiting_visit _ _, rfl⟩
      · exact ⟨rfl, rfl⟩
    · exact ⟨rfl, rfl⟩
  have hcovering : ∀ j : Journal, j.waiting = [] ∧ j.queued = [] →
      Orderly p.index (p.index.covering.foldl (takeUp p) j).waiting
        (p.index.covering.foldl (takeUp p) j).queued [] := by
    rintro j ⟨hwaiting, hqueued⟩
    refine orderly_foldl_takeUp hx ?_
    rw [hwaiting, hqueued]
    exact .covering hx
  have hnil : ∀ j : Journal, j.waiting = [] ∧ j.queued = [] →
      Orderly p.index j.waiting j.queued [] := by
    rintro j ⟨hwaiting, hqueued⟩
    rw [hwaiting, hqueued]
    exact .nil _
  simp only [start]
  split
  · exact .nil _
  · split
    · split
      · exact hnil _ hcenter
      · exact hcovering _ hcenter
    · split
      · exact .nil _
      · exact hcovering _ ⟨rfl, rfl⟩

/-- **Along a search** the regions keep their order, whatever the bounds and limits are. -/
theorem orderly_of_reached {found : Collector} (h : Reached p found j) :
    Orderly p.index j.waiting j.queued [] := by
  induction h with
  | refl => exact orderly_start hx found
  | tail _ hturn ih => exact orderly_turn hx ih hturn

/-- What waits is an index cell, or can be divided. -/
lemma genuine_of_reached {found : Collector} (h : Reached p found j) :
    ∀ entry ∈ j.state.queue.toList, entry.region.Genuine p.index := by
  intro entry hentry
  obtain ⟨i, hleads⟩ := (orderly_of_reached hx h).leads entry.region
    (List.mem_append_left _ (List.mem_map_of_mem hentry))
  exact hleads.genuine hx.tiled

end Orderly

/-! ### What is visited -/

/-- The search leaves nothing out: results are not bounded, no region waits with an infinite bound
or is an index cell without edges, and the regions that wait or are to be taken up account for what
has not been visited. -/
structure Thorough (p : Plan) (j : Journal) (pending : List Region) : Prop where
  orderly : Orderly p.index j.waiting j.queued pending
  exhaustive : Exhaustive p.index j.visited (j.waiting ++ pending)
  unbounded : j.state.found.Unbounded
  distance_lt : ∀ entry ∈ j.state.queue.toList, entry.distance < Chord.infinity
  edgeCount_pos : ∀ r ∈ j.waiting, ∀ i cell, r.position? = some i →
    p.index.cells[i]? = some cell → 0 < cell.edgeCount

namespace Thorough

/-- When such a search is over, each index cell with edges has been visited once. -/
lemma exactly_once (h : Thorough p j []) (hover : p.step j.state = none) :
    j.visited.Nodup ∧ ∀ i, i ∈ j.visited ↔
      ∃ cell, p.index.cells[i]? = some cell ∧ 0 < cell.edgeCount := by
  have hempty : j.waiting = [] := by
    refine List.eq_nil_iff_forall_not_mem.2 fun r hr => ?_
    obtain ⟨entry, hentry, -⟩ := List.mem_map.1 hr
    -- Whatever waits is closer than the limit, which is infinite.
    obtain ⟨first, rest, hpop⟩ := Heap.exists_pop? Entry.before hentry
    have hle := Plan.le_of_step_eq_none hover hpop
    rw [h.unbounded.limit_eq] at hle
    have hfirst := (Heap.toList_of_pop? hpop).mem_iff.2 List.mem_cons_self
    exact absurd (h.distance_lt first hfirst) (not_lt.2 hle)
  have hexhaustive := h.exhaustive
  rw [hempty] at hexhaustive
  refine ⟨hexhaustive.nodup, fun i => ⟨fun hi => ?_, ?_⟩⟩
  · obtain ⟨cell, hcell, hcount, -⟩ := hexhaustive.populated i hi
    exact ⟨cell, hcell, hcount⟩
  · rintro ⟨cell, hcell, hcount⟩
    rcases hexhaustive.complete i cell hcell hcount with hi | ⟨r, hr, -⟩
    · exact hi
    · exact absurd hr List.not_mem_nil

variable (hx : p.index.WellFormed)

include hx

/-- Visiting the index cell that comes next. -/
lemma visit (h : Thorough p j (r :: pending)) {i : ℕ} {cell : IndexCell}
    (hr : r.position? = some i) (hcell : p.index.cells[i]? = some cell)
    (hcount : 0 < cell.edgeCount) : Thorough p (Journal.visit p j i cell) pending := by
  obtain ⟨l, hleads⟩ := h.orderly.leads r (List.mem_append_right _ List.mem_cons_self)
  obtain rfl := Exhaustive.eq_of_leadsTo hr hleads
  have hmiddle : (r :: (j.waiting ++ pending)).Perm (j.waiting ++ r :: pending) :=
    List.perm_middle.symm
  have hapart := (hmiddle.pairwise_iff fun hab => hab.symm).2 h.orderly.apart
  refine ⟨?_, ?_, p.keeps_unbounded.visit cell h.unbounded, ?_, ?_⟩
  · rw [waiting_visit]
    exact h.orderly.tail
  · rw [waiting_visit]
    exact (h.exhaustive.perm hmiddle).visit hx.tiled (List.pairwise_cons.1 hapart).1 hr hleads
      hcell hcount
  · simp only [Journal.visit]
    rw [Plan.queue_visit]
    exact h.distance_lt
  · rw [waiting_visit]
    exact h.edgeCount_pos

variable (hall : ∀ id : CellId, id.isValid = true →
  ∃ v < Chord.infinity, p.measure.toCell (Cell.ofId id) Chord.infinity = some v)

include hall

/-- Every region that is not visited at once is queued. -/
lemma queue (h : Thorough p j (r :: pending))
    (hcount : ∀ i cell, r.position? = some i → p.index.cells[i]? = some cell →
      0 < cell.edgeCount) : Thorough p (Journal.queue p j r) pending := by
  obtain ⟨i, hleads⟩ := h.orderly.leads r (List.mem_append_right _ List.mem_cons_self)
  obtain ⟨m, n, hat⟩ := hleads.exists_at hx.tiled
  obtain ⟨v, hv, hcell⟩ := hall r.id hat.isValid
  rw [← h.unbounded.limit_eq] at hcell
  rcases queue_cases (p := p) (j := j) r with ⟨-, hnone⟩ | ⟨hwaiting, -, hvisited⟩
  · rw [hcell] at hnone
    cases hnone
  · refine ⟨orderly_queue hx h.orderly, ?_, ?_, ?_, ?_⟩
    · rw [hvisited]
      refine h.exhaustive.perm ((hwaiting.append_right pending).trans ?_)
      exact List.perm_middle.symm
    · rw [state_queue]
      exact p.keeps_unbounded.queue r h.unbounded
    · rw [state_queue]
      simp only [Plan.queue]
      rw [hcell]
      intro entry hentry
      rcases Heap.mem_toList_push.1 hentry with rfl | hentry
      · dsimp only
        cases p.slack? with
        | none => exact hv
        | some error => exact Chord.sub_lt_infinity hv error
      · exact h.distance_lt entry hentry
    · intro s hs
      rcases List.mem_cons.1 (hwaiting.mem_iff.1 hs) with rfl | hs
      · exact hcount
      · exact h.edgeCount_pos s hs

lemma takeUp (h : Thorough p j (r :: pending)) : Thorough p (Journal.takeUp p j r) pending := by
  simp only [Journal.takeUp]
  split
  · rename_i position hr
    split
    · rename_i cell hcell
      by_cases hzero : cell.edgeCount = 0
      · rw [if_pos hzero]
        have hmiddle : (r :: (j.waiting ++ pending)).Perm (j.waiting ++ r :: pending) :=
          List.perm_middle.symm
        exact ⟨h.orderly.tail, (h.exhaustive.perm hmiddle).skip hr hcell hzero, h.unbounded,
          h.distance_lt, h.edgeCount_pos⟩
      · rw [if_neg hzero]
        split
        · exact h.visit hx hr hcell (Nat.pos_of_ne_zero hzero)
        · refine h.queue hx hall fun i other hi hother => ?_
          rw [hr] at hi
          obtain rfl := Option.some.inj hi
          rw [hcell] at hother
          exact Option.some.inj hother ▸ Nat.pos_of_ne_zero hzero
    · rename_i hnone
      refine h.queue hx hall fun i other hi hother => ?_
      rw [hr] at hi
      obtain rfl := Option.some.inj hi
      rw [hnone] at hother
      cases hother
  · rename_i hr
    refine h.queue hx hall fun i other hi => ?_
    rw [hr] at hi
    cases hi

lemma foldl_takeUp {rs : List Region} (h : Thorough p j rs) :
    Thorough p (rs.foldl (Journal.takeUp p) j) [] := by
  induction rs generalizing j with
  | nil => exact h
  | cons r rest ih => exact ih (h.takeUp hx hall)

/-- **One turn** leaves nothing out. -/
theorem turn (h : Thorough p j []) (hturn : Turn p j next) : Thorough p next [] := by
  obtain ⟨entry, rest, hpop, rfl⟩ := exists_of_turn hturn
  have hqueue := Heap.toList_of_pop? hpop
  have hperm : (entry.region :: rest.toList.map Entry.region).Perm j.waiting :=
    (hqueue.map Entry.region).symm
  have horderly := h.orderly.perm hperm
  have hexhaustive := h.exhaustive.perm (hperm.append_right [])
  rw [List.append_nil] at hexhaustive
  obtain ⟨i, hleads⟩ := horderly.leads entry.region
    (List.mem_append_left _ List.mem_cons_self)
  have hdistance : ∀ other ∈ rest.toList, other.distance < Chord.infinity :=
    fun other hother => h.distance_lt other (hqueue.mem_iff.2 (List.mem_cons_of_mem _ hother))
  have hcount : ∀ r ∈ rest.toList.map Entry.region, ∀ i cell, r.position? = some i →
      p.index.cells[i]? = some cell → 0 < cell.edgeCount :=
    fun r hr => h.edgeCount_pos r (hperm.mem_iff.1 (List.mem_cons_of_mem _ hr))
  simp only [expand]
  split
  · rename_i position hposition
    obtain rfl := Exhaustive.eq_of_leadsTo hposition hleads
    obtain ⟨cell, hcell⟩ := hleads.exists_getElem?
    rw [hcell]
    dsimp only
    have hapart := horderly.apart
    rw [List.append_nil] at hapart
    refine ⟨?_, ?_, p.keeps_unbounded.visit cell h.unbounded, ?_, ?_⟩
    · rw [waiting_visit]
      exact horderly.pop
    · rw [waiting_visit, List.append_nil]
      exact hexhaustive.visit hx.tiled (List.pairwise_cons.1 hapart).1 hposition hleads hcell
        (h.edgeCount_pos _ (hperm.mem_iff.1 List.mem_cons_self) i cell hposition hcell)
    · simp only [Journal.visit]
      rw [Plan.queue_visit]
      exact hdistance
    · rw [waiting_visit]
      exact hcount
  · rename_i hposition
    refine foldl_takeUp hx hall ⟨horderly.divide hx.tiled, ?_, h.unbounded, hdistance, hcount⟩
    exact hexhaustive.divide hx.tiled (hleads.exists_at hx.tiled) hposition

/-- **Along a search** that leaves nothing out. -/
theorem of_reached {found : Collector} (hcap : p.measure.cap.isEmpty = false)
    (hfound : found.Unbounded) (h : Reached p found j) : Thorough p j [] := by
  have hone := hfound.capacity_ne_one
  induction h with
  | refl =>
    -- Only a search for one result begins at the centre of the target.
    simp only [start]
    rw [hcap, if_neg Bool.false_ne_true, if_neg hone, decide_eq_false hone, Bool.false_and,
      if_neg Bool.false_ne_true]
    exact foldl_takeUp hx hall ⟨.covering hx, .covering hx, hfound,
      fun _ he => absurd he List.not_mem_nil, fun _ hr => absurd hr List.not_mem_nil⟩
  | tail _ hturn ih => exact ih.turn hx hall hturn

end Thorough

end Journal

/-- **Each populated index cell is visited once.**  Every best-first search ends; on its way it
queues no cell of the grid twice, and whatever waits is an index cell or has index cells strictly
inside it.  If the results are not bounded and the target reports a bound for every cell, then the
index cells visited until the end are those with edges, each once. -/
theorem Request.visits_populated_once (q : Request) (clipping : Clipping) (shapes : List Shape)
    (indexSettings : Index.Settings)
    (hindex : q.index = Index.buildWith clipping shapes indexSettings) :
    (∀ (p : Plan) (found : Collector), p.index = q.index →
      (∃ last, Journal.Reached p found last ∧ p.step last.state = none ∧
        last.state = p.drain (p.start found)) ∧
      ∀ j, Journal.Reached p found j → (j.queued.map Region.id).Nodup ∧
        ∀ entry ∈ j.state.queue.toList, entry.region.Genuine q.index) ∧
    (q.settings.maxResults = unlimited → q.settings.maxDistance = Chord.infinity →
      q.measure.cap.isEmpty = false →
      (∀ id : CellId, id.isValid = true →
        ∃ v < Chord.infinity, q.measure.toCell (Cell.ofId id) Chord.infinity = some v) →
      ∃ last, Journal.Reached (q.plan q.interiors.limit) q.interiors last ∧
        (q.plan q.interiors.limit).step last.state = none ∧
        last.state = (q.plan q.interiors.limit).drain
          ((q.plan q.interiors.limit).start q.interiors) ∧
        last.visited.Nodup ∧ ∀ i, i ∈ last.visited ↔
          ∃ cell, q.index.cells[i]? = some cell ∧ 0 < cell.edgeCount) := by
  have hx : q.index.WellFormed := hindex ▸ Index.wellFormed_buildWith _ _ _
  refine ⟨?_, ?_⟩
  · intro p found hp
    rw [← hp] at hx ⊢
    refine ⟨?_, fun j hj => ⟨(Journal.orderly_of_reached hx hj).nodup,
      Journal.genuine_of_reached hx hj⟩⟩
    obtain ⟨last, hreach, hover, hlast⟩ := Journal.exists_last p (Journal.start p found)
    exact ⟨last, hreach, hover, hlast.trans (by rw [Journal.state_start])⟩
  · intro hmax hdistance hcap hall
    obtain ⟨last, hreach, hover, hlast⟩ :=
      Journal.exists_last (q.plan q.interiors.limit) (Journal.start _ q.interiors)
    rw [Journal.state_start] at hlast
    have hthorough := Journal.Thorough.of_reached (p := q.plan q.interiors.limit) hx hall hcap
      (Request.unbounded_interiors hmax hdistance) hreach
    exact ⟨last, hreach, hover, hlast, hthorough.exactly_once hover⟩

/-- A point has a finite distance to every cell of the grid. -/
lemma Site.exists_toCell_point (x : Point) (id : CellId) : ∃ v < Chord.infinity,
    (Site.point x).measure.toCell (Cell.ofId id) Chord.infinity = some v := by
  have hlt : (Cell.ofId id).cap.distanceToPoint x < Chord.infinity := by
    simp only [Cap.distanceToPoint, Cap.reduce]
    rw [Cell.isEmpty_cap_ofId, if_neg Bool.false_ne_true]
    exact Chord.sub_lt_infinity (Chord.ofLen2_lt_infinity _) _
  exact ⟨_, hlt, if_pos hlt⟩

/-- The search around the north pole in an index of points at the poles. -/
theorem Request.visits_populated_once_north :
    let x := Index.build polarShapes ⟨10, 0, by decide, by decide⟩
    let q := (Target.site (.point Point.north)).request x Settings.default 0
    q.index = x ∧ q.settings.maxResults = unlimited ∧ q.settings.maxDistance = Chord.infinity ∧
      q.measure.cap.isEmpty = false ∧
      (∀ id : CellId, id.isValid = true →
        ∃ v < Chord.infinity, q.measure.toCell (Cell.ofId id) Chord.infinity = some v) ∧
      ∃ last, Journal.Reached (q.plan q.interiors.limit) q.interiors last ∧
        last.visited.Nodup ∧ ∀ i, i ∈ last.visited ↔
          ∃ cell, x.cells[i]? = some cell ∧ 0 < cell.edgeCount := by
  intro x q
  have hall : ∀ id : CellId, id.isValid = true →
      ∃ v < Chord.infinity, q.measure.toCell (Cell.ofId id) Chord.infinity = some v :=
    fun id _ => Site.exists_toCell_point Point.north id
  have hcap : q.measure.cap.isEmpty = false := by decide +kernel
  obtain ⟨last, hreach, -, -, hvisited⟩ := (Request.visits_populated_once q Clipping.geometric
    polarShapes ⟨10, 0, by decide, by decide⟩ rfl).2 rfl rfl hcap hall
  exact ⟨rfl, rfl, rfl, hcap, hall, last, hreach, hvisited⟩

end SphereSearch.Search
