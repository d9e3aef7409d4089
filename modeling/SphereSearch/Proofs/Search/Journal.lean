import Mathlib.Data.List.Nodup
import Mathlib.Logic.Relation
import SphereSearch.Proofs.Index.Covering
import SphereSearch.Search.BestFirst

/-!
# What a search visits and queues

The best-first search does not tell which index cells it visits and which regions it queues.  A
`Journal` is its state with a record of both; the search that keeps a journal goes through the
same states (`Journal.state_start`, `Journal.state_step`), and it comes to an end
(`Journal.exists_last`).

Two things are kept along the way.  Regions that wait and regions that are still to be taken up
are apart, each of them leads to an index cell, and no region is above one that was queued before
(`Orderly`).  If nothing is ever left out, every index cell with edges has been visited or some
region leads to it, and not both (`Exhaustive`).
-/

namespace SphereSearch.Search

/-- How far a search has come, with a record of what it did. -/
structure Journal where
  /-- The state of the search. -/
  state : State
  /-- The positions of the index cells visited, the latest first. -/
  visited : List ℕ
  /-- The regions queued, the latest first. -/
  queued : List Region

namespace Journal

/-- The regions that wait. -/
def waiting (j : Journal) : List Region := j.state.queue.toList.map Entry.region

section Recording

variable (p : Plan)

/-- Visits the index cell at a position. -/
def visit (j : Journal) (position : ℕ) (cell : IndexCell) : Journal :=
  { j with state := p.visit j.state cell, visited := position :: j.visited }

/-- Queues a region if the bound on its distance is below the limit. -/
def queue (j : Journal) (r : Region) : Journal :=
  match p.measure.toCell (Cell.ofId r.id) j.state.found.limit with
  | some _ => { j with state := p.queue j.state r, queued := r :: j.queued }
  | none => j

/-- Takes up a region. -/
def takeUp (j : Journal) (r : Region) : Journal :=
  match r.position? with
  | some position =>
    match p.index.cells[position]? with
    | some cell =>
      if cell.edgeCount = 0 then j
      else if cell.edgeCount < Plan.minQueuedEdges then visit p j position cell
      else queue p j r
    | none => queue p j r
  | none => queue p j r

/-- Searches a region that was queued. -/
def expand (j : Journal) (r : Region) : Journal :=
  match r.position? with
  | some position =>
    match p.index.cells[position]? with
    | some cell => visit p j position cell
    | none => j
  | none => (p.index.regionsInside r.id).foldl (takeUp p) j

/-- One turn. -/
def step (j : Journal) : Option Journal :=
  match j.state.queue.pop? Entry.before with
  | none => none
  | some (entry, rest) =>
    if entry.distance ≥ j.state.found.limit then none
    else some (expand p { j with state := { j.state with queue := rest } } entry.region)

/-- Visits the index cell that holds the centre of the target, if there is one. -/
def visitCenter (j : Journal) : Journal :=
  match p.index.locate (CellId.ofPoint p.measure.cap.center) with
  | .indexed position =>
    match p.index.cells[position]? with
    | some cell => visit p j position cell
    | none => j
  | _ => j

/-- The journal before the first turn. -/
def start (found : Collector) : Journal :=
  let j : Journal := ⟨⟨found, [], .empty⟩, [], []⟩
  if p.measure.cap.isEmpty then j
  else
    let j := if found.capacity = 1 then visitCenter p j else j
    if found.capacity = 1 && Plan.isDone j.state.found then j
    else p.index.covering.foldl (takeUp p) j

/-- The journal comes from the other one by one turn. -/
def Turn (j next : Journal) : Prop := step p j = some next

/-- The journal comes up in the search. -/
def Reached (found : Collector) (j : Journal) : Prop :=
  Relation.ReflTransGen (Turn p) (start p found) j

end Recording

/-! ### The states are those of the search -/

section States

variable {p : Plan} {j next : Journal}

lemma state_queue (r : Region) : (queue p j r).state = p.queue j.state r := by
  simp only [queue]
  split
  · rfl
  · rename_i hnone
    simp only [Plan.queue]
    rw [hnone]

lemma state_takeUp (r : Region) : (takeUp p j r).state = p.takeUp j.state r := by
  simp only [takeUp, Plan.takeUp]
  cases r.position? with
  | none => exact state_queue r
  | some position =>
    rw [Option.bind_some]
    dsimp only
    cases p.index.cells[position]? with
    | none => exact state_queue r
    | some cell =>
      dsimp only
      split
      · rfl
      · split
        · rfl
        · exact state_queue r

lemma state_foldl_takeUp (rs : List Region) :
    (rs.foldl (takeUp p) j).state = rs.foldl p.takeUp j.state := by
  induction rs generalizing j with
  | nil => rfl
  | cons r rest ih => rw [List.foldl_cons, ih, state_takeUp, List.foldl_cons]

lemma state_expand (r : Region) : (expand p j r).state = p.expand j.state r := by
  simp only [expand, Plan.expand]
  cases r.position? with
  | none => exact state_foldl_takeUp _
  | some position =>
    dsimp only
    cases p.index.cells[position]? <;> rfl

/-- A turn of the journal is a turn of the search. -/
theorem state_step : (step p j).map state = p.step j.state := by
  simp only [step, Plan.step]
  cases j.state.queue.pop? Entry.before with
  | none => rfl
  | some popped =>
    dsimp only
    split
    · rfl
    · rw [Option.map_some, state_expand]

lemma state_visitCenter : (visitCenter p j).state = p.visitCenter j.state := by
  simp only [visitCenter, Plan.visitCenter]
  cases p.index.locate (CellId.ofPoint p.measure.cap.center) with
  | indexed position =>
    dsimp only
    cases p.index.cells[position]? <;> rfl
  | subdivided => rfl
  | disjoint => rfl

/-- The search with a journal starts where the search starts. -/
theorem state_start (found : Collector) : (start p found).state = p.start found := by
  simp only [start, Plan.start]
  split
  · rfl
  · by_cases hone : found.capacity = 1
    · rw [if_pos hone, if_pos hone, state_visitCenter]
      split
      · exact state_visitCenter
      · rw [state_foldl_takeUp, state_visitCenter]
    · rw [if_neg hone, if_neg hone]
      split
      · rfl
      · exact state_foldl_takeUp _

/-- What a turn does: the closest region is searched. -/
lemma exists_of_turn (h : Turn p j next) :
    ∃ entry rest, j.state.queue.pop? Entry.before = some (entry, rest) ∧
      next = expand p { j with state := { j.state with queue := rest } } entry.region := by
  simp only [Turn, step] at h
  cases hpop : j.state.queue.pop? Entry.before with
  | none =>
    rw [hpop] at h
    cases h
  | some popped =>
    rw [hpop] at h
    dsimp only at h
    by_cases hlimit : popped.1.distance ≥ j.state.found.limit
    · rw [if_pos hlimit] at h
      cases h
    · rw [if_neg hlimit] at h
      exact ⟨popped.1, popped.2, rfl, (Option.some.inj h).symm⟩

/-- **The search ends**, with a journal of the state in which it is over. -/
theorem exists_last (p : Plan) (j : Journal) :
    ∃ last, Relation.ReflTransGen (Turn p) j last ∧ p.step last.state = none ∧
      last.state = p.drain j.state := by
  generalize hs : j.state = s
  -- The turns are counted by the search, which keeps no journal.
  fun_induction Plan.drain p s generalizing j with
  | case1 s hover =>
    subst hs
    exact ⟨j, .refl, hover, rfl⟩
  | case2 s next hstep ih =>
    subst hs
    rw [← state_step, Option.map_eq_some_iff] at hstep
    obtain ⟨turned, hturn, rfl⟩ := hstep
    obtain ⟨last, hreach, hover, hlast⟩ := ih turned rfl
    exact ⟨last, .head hturn hreach, hover, hlast⟩

end States

end Journal

/-! ### Order among the regions -/

/-- Regions that wait, regions that have been queued so far, and regions that are still to be taken
up: the first and the last are apart and lead to index cells, and none of them is above a region
that has been queued. -/
structure Orderly (x : Index) (waiting queued pending : List Region) : Prop where
  leads : ∀ r ∈ waiting ++ pending, ∃ i, r.LeadsTo x i
  apart : (waiting ++ pending).Pairwise fun r s => r.id.Apart s.id
  waiting_below : ∀ q ∈ queued, ∀ r ∈ waiting, q.id.Apart r.id ∨ q.id.Holds r.id
  pending_below : ∀ q ∈ queued, ∀ r ∈ pending, q.id.Apart r.id ∨ q.id.Holds r.id ∧ q.id ≠ r.id
  nodup : (queued.map Region.id).Nodup

namespace Orderly

variable {x : Index} {waiting queued pending rest : List Region} {r : Region}

/-- A region has been dealt with and is not queued. -/
lemma tail (h : Orderly x waiting queued (r :: pending)) : Orderly x waiting queued pending where
  leads s hs := h.leads s (by
    rcases List.mem_append.1 hs with hs | hs
    · exact List.mem_append_left _ hs
    · exact List.mem_append_right _ (List.mem_cons_of_mem _ hs))
  apart := h.apart.sublist ((List.sublist_cons_self r pending).append_left waiting)
  waiting_below := h.waiting_below
  pending_below q hq s hs := h.pending_below q hq s (List.mem_cons_of_mem _ hs)
  nodup := h.nodup

/-- The order in which regions wait does not matter. -/
lemma perm {waiting' : List Region} (h : Orderly x waiting queued pending)
    (hp : waiting'.Perm waiting) : Orderly x waiting' queued pending where
  leads s hs := h.leads s (((hp.append_right pending).mem_iff).1 hs)
  apart := ((hp.append_right pending).pairwise_iff fun hab => hab.symm).2 h.apart
  waiting_below q hq s hs := h.waiting_below q hq s (hp.mem_iff.1 hs)
  pending_below := h.pending_below
  nodup := h.nodup

/-- **Queueing** a region that was to be taken up. -/
lemma queue (ht : Tiled x.cells.toList) (h : Orderly x waiting queued (r :: pending)) :
    Orderly x (r :: waiting) (r :: queued) pending := by
  have hmiddle : (waiting ++ r :: pending).Perm (r :: waiting ++ pending) := List.perm_middle
  have hapart := (hmiddle.pairwise_iff fun hab => hab.symm).1 h.apart
  have hhead : ∀ s ∈ waiting ++ pending, r.id.Apart s.id := (List.pairwise_cons.1 hapart).1
  obtain ⟨i, hleads⟩ := h.leads r (List.mem_append_right _ List.mem_cons_self)
  obtain ⟨m, n, hat⟩ := hleads.exists_at ht
  refine ⟨fun s hs => h.leads s (hmiddle.mem_iff.2 hs), hapart, ?_, ?_, ?_⟩
  · intro q hqueued s hwaiting
    rcases List.mem_cons.1 hqueued with rfl | hq
    · rcases List.mem_cons.1 hwaiting with rfl | hs
      · exact Or.inr (.refl _)
      · exact Or.inl (hhead s (List.mem_append_left _ hs))
    · rcases List.mem_cons.1 hwaiting with rfl | hs
      · exact (h.pending_below q hq s List.mem_cons_self).imp_right And.left
      · exact h.waiting_below q hq s hs
  · intro q hq s hs
    rcases List.mem_cons.1 hq with rfl | hq
    · exact Or.inl (hhead s (List.mem_append_right _ hs))
    · exact h.pending_below q hq s (List.mem_cons_of_mem _ hs)
  · -- A region queued before is apart from this one or strictly above it.
    refine List.nodup_cons.2 ⟨fun hmem => ?_, h.nodup⟩
    obtain ⟨q, hq, hid⟩ := List.mem_map.1 hmem
    rcases h.pending_below q hq r List.mem_cons_self with haway | ⟨-, hne⟩
    · rw [hid] at haway
      exact hat.not_apart_of_holds (.refl _) haway
    · exact hne hid

/-- A region that waited is searched, and nothing is found in it to take up. -/
lemma pop (h : Orderly x (r :: rest) queued []) : Orderly x rest queued [] where
  leads s hs := h.leads s (List.mem_cons_of_mem _ hs)
  apart := h.apart.tail
  waiting_below q hq s hs := h.waiting_below q hq s (List.mem_cons_of_mem _ hs)
  pending_below _ _ _ hs := absurd hs List.not_mem_nil
  nodup := h.nodup

/-- **Dividing** a region that waited. -/
lemma divide (ht : Tiled x.cells.toList) (h : Orderly x (r :: rest) queued []) :
    Orderly x rest queued (x.regionsInside r.id) := by
  obtain ⟨i, hleads⟩ := h.leads r (List.mem_append_left _ List.mem_cons_self)
  have hat := hleads.exists_at ht
  have hinside : ∀ s ∈ x.regionsInside r.id, (r.id.Holds s.id ∧ r.id ≠ s.id) ∧
      ∃ i, s.LeadsTo x i := fun s hs => Index.leadsTo_of_mem_regionsInside ht hat hs
  have happart := h.apart
  rw [List.append_nil] at happart
  obtain ⟨hhead, htail⟩ := List.pairwise_cons.1 happart
  refine ⟨?_, List.pairwise_append.2 ⟨htail, x.pairwise_regionsInside hat, ?_⟩, ?_, ?_, h.nodup⟩
  · intro s hs
    rcases List.mem_append.1 hs with hs | hs
    · exact h.leads s (List.mem_append_left _ (List.mem_cons_of_mem _ hs))
    · exact (hinside s hs).2
  · intro s hs t ht'
    exact ((hhead s hs).symm).of_holds (hinside t ht').1.1
  · exact fun q hq s hs => h.waiting_below q hq s (List.mem_cons_of_mem _ hs)
  · intro q hq s hs
    obtain ⟨⟨hold, hne⟩, j, hleads'⟩ := hinside s hs
    rcases h.waiting_below q hq r List.mem_cons_self with haway | habove
    · exact Or.inl (haway.of_holds hold)
    · refine Or.inr ⟨habove.trans hold, fun heq => hne ?_⟩
      obtain ⟨m, n, hatr⟩ := hat
      obtain ⟨m', n', hats⟩ := hleads'.exists_at ht
      exact hatr.eq_of_holds_of_holds hats hold (heq ▸ habove)

/-- Before anything has been queued, the covering is to be taken up. -/
lemma covering (hx : x.WellFormed) : Orderly x [] [] x.covering where
  leads _ hr := Index.leadsTo_of_mem_covering hx hr
  apart := Index.pairwise_covering hx
  waiting_below _ hq := absurd hq List.not_mem_nil
  pending_below _ hq := absurd hq List.not_mem_nil
  nodup := List.nodup_nil

lemma nil (x : Index) : Orderly x [] [] [] where
  leads _ hr := absurd hr List.not_mem_nil
  apart := List.Pairwise.nil
  waiting_below _ hq := absurd hq List.not_mem_nil
  pending_below _ hq := absurd hq List.not_mem_nil
  nodup := List.nodup_nil

end Orderly

/-! ### Nothing is left out and nothing comes twice -/

/-- Positions visited so far and regions from which the rest is still to be reached: together they
account for every index cell with edges, and nothing that has been visited is reached again. -/
structure Exhaustive (x : Index) (visited : List ℕ) (ahead : List Region) : Prop where
  nodup : visited.Nodup
  populated : ∀ i ∈ visited, ∃ cell, x.cells[i]? = some cell ∧ 0 < cell.edgeCount ∧
    ∀ r ∈ ahead, r.id.Apart cell.id
  complete : ∀ i cell, x.cells[i]? = some cell → 0 < cell.edgeCount →
    i ∈ visited ∨ ∃ r ∈ ahead, r.LeadsTo x i

namespace Exhaustive

variable {x : Index} {visited : List ℕ} {ahead rest : List Region} {r : Region} {i : ℕ}
  {cell : IndexCell}

lemma perm {ahead' : List Region} (h : Exhaustive x visited ahead) (hp : ahead'.Perm ahead) :
    Exhaustive x visited ahead' where
  nodup := h.nodup
  populated i hi := by
    obtain ⟨cell, hcell, hcount, hapart⟩ := h.populated i hi
    exact ⟨cell, hcell, hcount, fun r hr => hapart r (hp.mem_iff.1 hr)⟩
  complete i cell hcell hcount := by
    rcases h.complete i cell hcell hcount with hi | ⟨r, hr, hleads⟩
    · exact Or.inl hi
    · exact Or.inr ⟨r, hp.mem_iff.2 hr, hleads⟩

/-- A region that is an index cell leads to this one alone. -/
lemma eq_of_leadsTo {position j : ℕ} (hr : r.position? = some position) (h : r.LeadsTo x j) :
    j = position := by
  cases h with
  | here => exact Option.some.inj hr
  | above => exact absurd hr (by simp)

/-- An index cell without edges is passed over. -/
lemma skip (h : Exhaustive x visited (r :: rest)) (hr : r.position? = some i)
    (hcell : x.cells[i]? = some cell) (hcount : cell.edgeCount = 0) :
    Exhaustive x visited rest where
  nodup := h.nodup
  populated j hj := by
    obtain ⟨other, hother, hpos, hapart⟩ := h.populated j hj
    exact ⟨other, hother, hpos, fun s hs => hapart s (List.mem_cons_of_mem _ hs)⟩
  complete j other hother hpos := by
    rcases h.complete j other hother hpos with hj | ⟨s, hs, hleads⟩
    · exact Or.inl hj
    · rcases List.mem_cons.1 hs with rfl | hs
      · rw [eq_of_leadsTo hr hleads, hcell] at hother
        rw [← Option.some.inj hother, hcount] at hpos
        exact absurd hpos (lt_irrefl 0)
      · exact Or.inr ⟨s, hs, hleads⟩

/-- **Visiting** an index cell. -/
lemma visit (ht : Tiled x.cells.toList) (h : Exhaustive x visited (r :: rest))
    (hapart : ∀ s ∈ rest, r.id.Apart s.id) (hr : r.position? = some i) (hleads : r.LeadsTo x i)
    (hcell : x.cells[i]? = some cell) (hcount : 0 < cell.edgeCount) :
    Exhaustive x (i :: visited) rest := by
  obtain ⟨m, n, hat⟩ := ht.exists_at_of_getElem? hcell
  have hold := hleads.holds hcell
  refine ⟨List.nodup_cons.2 ⟨fun hmem => ?_, h.nodup⟩, ?_, ?_⟩
  · -- What has been visited is apart from all that is ahead, so it is not this cell.
    obtain ⟨other, hother, -, haway⟩ := h.populated i hmem
    rw [hcell] at hother
    obtain rfl := Option.some.inj hother
    exact hat.not_apart_of_holds hold (haway r List.mem_cons_self)
  · intro j hj
    rcases List.mem_cons.1 hj with rfl | hj
    · exact ⟨cell, hcell, hcount, fun s hs => (hapart s hs).symm.of_holds hold⟩
    · obtain ⟨other, hother, hpos, haway⟩ := h.populated j hj
      exact ⟨other, hother, hpos, fun s hs => haway s (List.mem_cons_of_mem _ hs)⟩
  · intro j other hother hpos
    rcases h.complete j other hother hpos with hj | ⟨s, hs, hleads'⟩
    · exact Or.inl (List.mem_cons_of_mem _ hj)
    · rcases List.mem_cons.1 hs with rfl | hs
      · rw [eq_of_leadsTo hr hleads']
        exact Or.inl List.mem_cons_self
      · exact Or.inr ⟨s, hs, hleads'⟩

/-- **Dividing** a region. -/
lemma divide (ht : Tiled x.cells.toList) (h : Exhaustive x visited (r :: rest))
    (hat : ∃ m n, r.id.At m n) (hr : r.position? = none) :
    Exhaustive x visited (rest ++ x.regionsInside r.id) where
  nodup := h.nodup
  populated j hj := by
    obtain ⟨other, hother, hpos, haway⟩ := h.populated j hj
    refine ⟨other, hother, hpos, fun s hs => ?_⟩
    rcases List.mem_append.1 hs with hs | hs
    · exact haway s (List.mem_cons_of_mem _ hs)
    · obtain ⟨⟨hold, -⟩, -⟩ := Index.leadsTo_of_mem_regionsInside ht hat hs
      exact ((haway r List.mem_cons_self).symm.of_holds hold).symm
  complete j other hother hpos := by
    rcases h.complete j other hother hpos with hj | ⟨s, hs, hleads⟩
    · exact Or.inl hj
    · rcases List.mem_cons.1 hs with rfl | hs
      · obtain ⟨id, position?⟩ := s
        obtain rfl : position? = none := hr
        obtain ⟨t, ht', hleads'⟩ := Index.exists_mem_regionsInside ht hleads
        exact Or.inr ⟨t, List.mem_append_right _ ht', hleads'⟩
      · exact Or.inr ⟨s, List.mem_append_left _ hs, hleads⟩

/-- Before anything has been visited, the covering leads to all index cells. -/
lemma covering (hx : x.WellFormed) : Exhaustive x [] x.covering where
  nodup := List.nodup_nil
  populated _ hi := absurd hi List.not_mem_nil
  complete _ _ hcell _ := Or.inr (Index.exists_mem_covering hx hcell)

end Exhaustive

end SphereSearch.Search
