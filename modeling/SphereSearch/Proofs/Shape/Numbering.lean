import SphereSearch.Proofs.Shape.Rewriting
import SphereSearch.Shape.Numbering

/-!
# The numbers of edges

An edge of a polygon has its place: edge `j` of loop `k` begins at vertex `j` of this loop and has
the number of edges in the loops before it, plus `j` (`Loop.IsPlace`).  Every number of an edge is
that of exactly one place, and every vertex is the place of exactly one edge and the end of exactly
one, so that edges are numbered without gaps and none is counted twice (`Polygon.Numbered`).  Both
ways of looking an edge up, loop after loop and by binary search, find the place.

A point is a chain of edges by itself, a polyline is one chain, and so is every loop.  The starts of
chains are those of the edges that begin one, by ascending number (`Shape.Chained`).
-/

namespace SphereSearch

namespace Loop

variable {l : Loop} {loops : List Loop} {e i j k n : ℕ}

/-! ### Places -/

/-- The number of edges of the first `k` loops. -/
def before (loops : List Loop) (k : ℕ) : ℕ := ((loops.take k).map Array.size).sum

@[simp] lemma before_zero (loops : List Loop) : before loops 0 = 0 := rfl

@[simp] lemma before_cons_succ (l : Loop) (loops : List Loop) (k : ℕ) :
    before (l :: loops) (k + 1) = l.size + before loops k := by
  simp [before]

lemma before_succ (hl : loops[k]? = some l) : before loops (k + 1) = before loops k + l.size := by
  simp [before, List.take_add_one, hl]

lemma before_mono (loops : List Loop) : Monotone (before loops) := by
  refine monotone_nat_of_le_succ fun k => ?_
  simp [before, List.take_add_one]

lemma before_le_length (loops : List Loop) (k : ℕ) :
    before loops k ≤ before loops loops.length := by
  rcases le_total k loops.length with hk | hk
  · exact before_mono loops hk
  · rw [before, List.take_of_length_le hk, before, List.take_length]

/-- The number of all edges. -/
lemma before_length (loops : List Loop) :
    before loops loops.length = loops.foldr (fun l n => l.size + n) 0 := by
  induction loops with
  | nil => rfl
  | cons l loops ih => rw [List.length_cons, before_cons_succ, ih, List.foldr_cons]

/-- Edge `e` of several loops is edge `j` of loop `k`, which begins at vertex `j`. -/
def IsPlace (loops : List Loop) (e k j : ℕ) : Prop :=
  ∃ l, loops[k]? = some l ∧ j < l.size ∧ e = before loops k + j

/-- Edge `e` of several loops ends at vertex `j` of loop `k`. -/
def EndsAt (loops : List Loop) (e k j : ℕ) : Prop :=
  ∃ l i, loops[k]? = some l ∧ IsPlace loops e k i ∧ (i + 1) % l.size = j

lemma isPlace_cons_zero : IsPlace (l :: loops) e 0 j ↔ j < l.size ∧ e = j := by
  simp [IsPlace]

lemma isPlace_cons_succ :
    IsPlace (l :: loops) e (k + 1) j ↔ l.size ≤ e ∧ IsPlace loops (e - l.size) k j := by
  simp only [IsPlace, List.getElem?_cons_succ, before_cons_succ]
  constructor
  · rintro ⟨m, hm, hj, rfl⟩
    exact ⟨by omega, m, hm, hj, by omega⟩
  · rintro ⟨hle, m, hm, hj, he⟩
    exact ⟨m, hm, hj, by omega⟩

/-- The places of a loop come before the places of the loops after it. -/
lemma IsPlace.lt_before (h : IsPlace loops e k j) {k' : ℕ} (hk : k < k') : e < before loops k' := by
  obtain ⟨l, hl, hj, rfl⟩ := h
  have hle := before_mono loops (Nat.succ_le_of_lt hk)
  rw [Nat.succ_eq_add_one, before_succ hl] at hle
  omega

lemma IsPlace.unique {k' j' : ℕ} (h : IsPlace loops e k j) (h' : IsPlace loops e k' j') :
    k = k' ∧ j = j' := by
  have hle : ∀ {a b i i'}, IsPlace loops e a i → IsPlace loops e b i' → b ≤ a := by
    rintro a b i i' ha ⟨-, -, -, hb⟩
    by_contra hab
    have := ha.lt_before (not_le.1 hab)
    omega
  obtain rfl : k = k' := le_antisymm (hle h' h) (hle h h')
  obtain ⟨-, -, -, he⟩ := h
  obtain ⟨-, -, -, he'⟩ := h'
  exact ⟨rfl, by omega⟩

lemma exists_isPlace (he : e < before loops loops.length) : ∃ k j, IsPlace loops e k j := by
  induction loops generalizing e with
  | nil => exact absurd he (Nat.not_lt_zero e)
  | cons l loops ih =>
    rw [List.length_cons, before_cons_succ] at he
    rcases lt_or_ge e l.size with hlt | hge
    · exact ⟨0, e, isPlace_cons_zero.2 ⟨hlt, rfl⟩⟩
    · obtain ⟨k, j, h⟩ := ih (show e - l.size < _ by omega)
      exact ⟨k + 1, j, isPlace_cons_succ.2 ⟨hge, h⟩⟩

/-- **Every edge has one place.** -/
lemma existsUnique_isPlace (he : e < before loops loops.length) :
    ∃! p : ℕ × ℕ, IsPlace loops e p.1 p.2 := by
  obtain ⟨k, j, h⟩ := exists_isPlace he
  exact ⟨(k, j), h, fun p hp => Prod.ext (hp.unique h).1 (hp.unique h).2⟩

/-- Every vertex is the place of one edge. -/
lemma existsUnique_of_place (hl : loops[k]? = some l) (hj : j < l.size) :
    ∃! e, IsPlace loops e k j := by
  refine ⟨before loops k + j, ⟨l, hl, hj, rfl⟩, ?_⟩
  rintro e ⟨-, -, -, rfl⟩
  rfl

/-- On a circle of `n` places, one step leads to each of them from exactly one. -/
lemma existsUnique_add_one_mod (hj : j < n) : ∃! i, i < n ∧ (i + 1) % n = j := by
  rcases j with _ | j
  · refine ⟨n - 1, ⟨by omega, by rw [Nat.sub_add_cancel (by omega), Nat.mod_self]⟩, ?_⟩
    rintro i ⟨hi, hzero⟩
    by_contra hne
    rw [Nat.mod_eq_of_lt (by omega)] at hzero
    omega
  · refine ⟨j, ⟨by omega, Nat.mod_eq_of_lt hj⟩, ?_⟩
    rintro i ⟨hi, hsucc⟩
    rcases Nat.lt_or_ge (i + 1) n with hlt | hge
    · rw [Nat.mod_eq_of_lt hlt] at hsucc
      omega
    · rw [show i + 1 = n by omega, Nat.mod_self] at hsucc
      omega

/-- Every vertex is the end of one edge. -/
lemma existsUnique_endsAt (hl : loops[k]? = some l) (hj : j < l.size) :
    ∃! e, EndsAt loops e k j := by
  obtain ⟨i, ⟨hi, hnext⟩, hunique⟩ := existsUnique_add_one_mod hj
  refine ⟨before loops k + i, ⟨l, i, hl, ⟨l, hl, hi, rfl⟩, hnext⟩, ?_⟩
  rintro e ⟨l', i', hl', ⟨l'', hl'', hi', rfl⟩, hnext'⟩
  rw [hl] at hl' hl''
  cases hl'
  cases hl''
  rw [hunique i' ⟨hi', hnext'⟩]

/-! ### Looking up -/

/-- The edge at a place. -/
lemma edgeAt?_of_isPlace (h : IsPlace loops e k j) (hl : loops[k]? = some l) :
    edgeAt? loops e = edge? l j := by
  induction loops generalizing e k with
  | nil => exact absurd hl (by simp)
  | cons m loops ih =>
    cases k with
    | zero =>
      obtain ⟨hj, rfl⟩ := isPlace_cons_zero.1 h
      rw [List.getElem?_cons_zero, Option.some_inj] at hl
      rw [edgeAt?, if_pos hj, hl]
    | succ k =>
      obtain ⟨hle, h⟩ := isPlace_cons_succ.1 h
      rw [List.getElem?_cons_succ] at hl
      rw [edgeAt?, if_neg (not_lt.2 hle)]
      exact ih h hl

/-- The ends of an edge of a loop. -/
lemma edge?_eq_some (hj : j < l.size) :
    ∃ a b, l[j]? = some a ∧ l[(j + 1) % l.size]? = some b ∧ edge? l j = some ⟨a, b⟩ := by
  have hnext : (j + 1) % l.size < l.size := Nat.mod_lt _ (by omega)
  refine ⟨l[j], l[(j + 1) % l.size], Array.getElem?_eq_getElem hj,
    Array.getElem?_eq_getElem hnext, ?_⟩
  simp only [edge?, dif_pos hj]

lemma getElem?_offsets (n : ℕ) (loops : List Loop) (k : ℕ) :
    (offsets n loops)[k]? = if k ≤ loops.length then some (n + before loops k) else none := by
  induction loops generalizing n k with
  | nil => cases k <;> simp [offsets]
  | cons l loops ih =>
    cases k with
    | zero => simp [offsets]
    | succ k => simp [offsets, ih, Nat.add_assoc]

lemma length_offsets (n : ℕ) (loops : List Loop) : (offsets n loops).length = loops.length + 1 := by
  induction loops generalizing n with
  | nil => rfl
  | cons l loops ih => simp [offsets, ih]

/-- Binary search counts the loops of which the first edge does not come after `e`, and the end. -/
lemma lt_bisect_offsets (hk : k ≤ loops.length) :
    k < bisect (· ≤ e) (offsets 0 loops).toArray 0 (offsets 0 loops).toArray.size ↔
      before loops k ≤ e := by
  have hget : ∀ i, (offsets 0 loops).toArray[i]? =
      if i ≤ loops.length then some (before loops i) else none := by
    intro i
    rw [List.getElem?_toArray, getElem?_offsets, Nat.zero_add]
  have hvalue : ∀ {i a}, (offsets 0 loops).toArray[i]? = some a → a = before loops i := by
    intro i a ha
    rw [hget] at ha
    exact (Option.some.inj (Option.ite_none_right_eq_some.1 ha).2).symm
  have hsize : k < (offsets 0 loops).toArray.size := by
    rw [List.size_toArray, length_offsets]
    omega
  refine (lt_bisect_iff le_rfl ?_ ((hget k).trans (if_pos hk)) (Nat.zero_le k) hsize).trans
    decide_eq_true_iff
  intro i j a b _ hij _ ha hb hle
  rw [hvalue ha, decide_eq_true_iff]
  rw [hvalue hb, decide_eq_true_iff] at hle
  exact (before_mono loops hij).trans hle

/-- **Binary search** finds the same edges as going through the loops. -/
theorem lookUp?_eq (loops : List Loop) (e : ℕ) : lookUp? loops e = edgeAt? loops e := by
  have hle : bisect (· ≤ e) (offsets 0 loops).toArray 0 (offsets 0 loops).toArray.size ≤
      loops.length + 1 :=
    (bisect_le (Nat.zero_le _)).trans_eq (length_offsets 0 loops)
  have hcut := fun k (hk : k ≤ loops.length) => lt_bisect_offsets (e := e) hk
  simp only [lookUp?, Option.bind_eq_bind]
  generalize bisect (· ≤ e) (offsets 0 loops).toArray 0 (offsets 0 loops).toArray.size = m
    at hle hcut ⊢
  -- The first sum is zero, which is not above `e`.
  obtain ⟨k, rfl⟩ : ∃ k, m = k + 1 :=
    Nat.exists_eq_succ_of_ne_zero
      (Nat.ne_zero_of_lt ((hcut 0 (Nat.zero_le _)).2 (Nat.zero_le e)))
  have hk : k ≤ loops.length := by omega
  have hfirst : before loops k ≤ e := (hcut k hk).1 (Nat.lt_succ_self k)
  rw [Nat.add_sub_cancel, List.getElem?_toArray, getElem?_offsets, if_pos hk, Nat.zero_add]
  cases hl : loops[k]? with
  | none =>
    -- Every sum is at most `e`, also the number of all edges.
    have hlength : k = loops.length := le_antisymm hk (List.getElem?_eq_none_iff.1 hl)
    rw [Option.bind_none, eq_comm, ← Option.not_isSome_iff_eq_none, isSome_edgeAt?,
      ← before_length, ← hlength]
    exact not_lt.2 hfirst
  | some l =>
    have hlt : k < loops.length := (List.getElem?_eq_some_iff.1 hl).1
    have hnext : e < before loops (k + 1) :=
      not_le.1 (mt (hcut (k + 1) hlt).2 (lt_irrefl _))
    rw [before_succ hl] at hnext
    have hplace : IsPlace loops e k (e - before loops k) := ⟨l, hl, by omega, by omega⟩
    exact (edgeAt?_of_isPlace hplace hl).symm

/-- Looked up in order, the edges of all loops are those of one loop after the other. -/
lemma filterMap_edgeAt? (loops : List Loop) :
    (List.range (before loops loops.length)).filterMap (edgeAt? loops) =
      loops.flatMap Loop.edges := by
  induction loops with
  | nil => rfl
  | cons l loops ih =>
    rw [List.length_cons, before_cons_succ, List.range_add, List.filterMap_append,
      List.flatMap_cons, List.filterMap_map, ← ih, Loop.edges]
    congr 1
    · refine List.filterMap_congr fun e he => ?_
      rw [edgeAt?, if_pos (List.mem_range.1 he)]
    · refine List.filterMap_congr fun e _ => ?_
      rw [Function.comp_apply, edgeAt?, if_neg (by omega), Nat.add_sub_cancel_left]

/-! ### The edges that begin a loop -/

/-- The number of the first edge of each loop that has one, counted from `n`. -/
def firstEdges (n : ℕ) : List Loop → List ℕ
  | [] => []
  | l :: rest => if l.size = 0 then firstEdges n rest else n :: firstEdges (n + l.size) rest

lemma mem_firstEdges {m : ℕ} :
    m ∈ firstEdges n loops ↔ ∃ e k, m = n + e ∧ IsPlace loops e k 0 := by
  induction loops generalizing n with
  | nil => simp [firstEdges, IsPlace]
  | cons l loops ih =>
    have hsplit : (∃ e k, m = n + e ∧ IsPlace (l :: loops) e k 0) ↔
        (0 < l.size ∧ m = n) ∨ ∃ e k, m = n + l.size + e ∧ IsPlace loops e k 0 := by
      constructor
      · rintro ⟨e, k, rfl, h⟩
        cases k with
        | zero =>
          obtain ⟨hpos, rfl⟩ := isPlace_cons_zero.1 h
          exact Or.inl ⟨hpos, rfl⟩
        | succ k =>
          obtain ⟨hle, h⟩ := isPlace_cons_succ.1 h
          exact Or.inr ⟨e - l.size, k, by omega, h⟩
      · rintro (⟨hpos, rfl⟩ | ⟨e, k, rfl, h⟩)
        · exact ⟨0, 0, rfl, isPlace_cons_zero.2 ⟨hpos, rfl⟩⟩
        · refine ⟨l.size + e, k + 1, by omega, isPlace_cons_succ.2 ⟨by omega, ?_⟩⟩
          rwa [Nat.add_sub_cancel_left]
    rw [hsplit, firstEdges]
    by_cases hzero : l.size = 0
    · simp [hzero, ih]
    · simp [hzero, ih, Nat.pos_of_ne_zero hzero]

lemma pairwise_firstEdges (n : ℕ) (loops : List Loop) : (firstEdges n loops).Pairwise (· < ·) := by
  induction loops generalizing n with
  | nil => exact List.Pairwise.nil
  | cons l loops ih =>
    rw [firstEdges]
    by_cases hzero : l.size = 0
    · rw [if_pos hzero]
      exact ih n
    · rw [if_neg hzero, List.pairwise_cons]
      refine ⟨fun m hm => ?_, ih _⟩
      obtain ⟨e, k, rfl, -⟩ := mem_firstEdges.1 hm
      omega

/-- Each loop begins where its first edge does. -/
lemma map_start_firstEdges (n : ℕ) (loops : List Loop) :
    (firstEdges n loops).map (fun m => (edgeAt? loops (m - n)).map Edge.start) =
      (loops.filterMap (·[0]?)).map some := by
  induction loops generalizing n with
  | nil => rfl
  | cons l loops ih =>
    rw [firstEdges]
    by_cases hzero : l.size = 0
    · have hnone : l[0]? = none := Array.getElem?_eq_none (by omega)
      rw [if_pos hzero, List.filterMap_cons, hnone, ← ih n]
      refine List.map_congr_left fun m _ => ?_
      rw [edgeAt?, if_neg (by omega), hzero, Nat.sub_zero]
    · obtain ⟨a, b, ha, -, hedge⟩ := edge?_eq_some (Nat.pos_of_ne_zero hzero)
      rw [if_neg hzero, List.filterMap_cons, ha, List.map_cons, List.map_cons, Nat.sub_self,
        edgeAt?, if_pos (Nat.pos_of_ne_zero hzero), hedge, ← ih (n + l.size)]
      refine congrArg _ (List.map_congr_left fun m hm => ?_)
      obtain ⟨e, k, rfl, -⟩ := mem_firstEdges.1 hm
      rw [edgeAt?, if_neg (by omega), Nat.sub_sub]

end Loop

open Loop

namespace Polygon

variable {P : Polygon}

lemma edgeCount_eq_before (P : Polygon) : P.edgeCount = before P.loops P.loops.length :=
  (before_length P.loops).symm

/-- The edges of a polygon are numbered loop by loop. -/
structure Numbered (P : Polygon) : Prop where
  /-- There are as many edges as vertices. -/
  edgeCount_eq : P.edgeCount = (P.loops.map Array.size).sum
  /-- An edge that is not there is not found. -/
  eq_none_iff : ∀ e, P.edge? e = none ↔ P.edgeCount ≤ e
  /-- Every number of an edge is that of one place. -/
  place : ∀ e < P.edgeCount, ∃! p : ℕ × ℕ, IsPlace P.loops e p.1 p.2
  /-- The edge at a place runs from its vertex to the next one of the loop. -/
  edge_eq : ∀ e k j l, IsPlace P.loops e k j → P.loops[k]? = some l →
    ∃ a b, l[j]? = some a ∧ l[(j + 1) % l.size]? = some b ∧ P.edge? e = some ⟨a, b⟩
  /-- Binary search finds the same edges. -/
  lookUp_eq : ∀ e, lookUp? P.loops e = P.edge? e
  /-- Every vertex is the start of one edge. -/
  start : ∀ k l j, P.loops[k]? = some l → j < l.size → ∃! e, IsPlace P.loops e k j
  /-- Every vertex is the end of one edge. -/
  stop : ∀ k l j, P.loops[k]? = some l → j < l.size → ∃! e, EndsAt P.loops e k j
  /-- In order, the edges are those of one closed loop after the other. -/
  edges_eq : (Shape.polygon P).edges =
    P.loops.flatMap fun l => List.zipWith Edge.mk l.toList (l.toList.rotate 1)

theorem numbered (P : Polygon) : P.Numbered where
  edgeCount_eq := by rw [edgeCount_eq_before, before, List.take_length]
  eq_none_iff e := by
    rw [← Option.not_isSome_iff_eq_none, edge?, isSome_edgeAt?, ← before_length,
      edgeCount_eq_before, not_lt]
  place e he := existsUnique_isPlace (edgeCount_eq_before P ▸ he)
  edge_eq e k j l h hl := by
    obtain ⟨l', hl', hj, -⟩ := id h
    rw [hl, Option.some_inj] at hl'
    obtain ⟨a, b, ha, hb, hedge⟩ := edge?_eq_some (hl' ▸ hj)
    exact ⟨a, b, ha, hb, (edgeAt?_of_isPlace h hl).trans hedge⟩
  lookUp_eq e := lookUp?_eq P.loops e
  start k l j hl hj := existsUnique_of_place hl hj
  stop k l j hl hj := existsUnique_endsAt hl hj
  edges_eq := by
    show (List.range P.edgeCount).filterMap (edgeAt? P.loops) = _
    rw [edgeCount_eq_before, filterMap_edgeAt?]
    simp only [← edges_eq_zipWith]

end Polygon

namespace Shape

variable {s : Shape} {e : ℕ}

/-- Edge `e` begins a chain: every point is one, a polyline begins with its first edge, and each
loop with the edge at its first vertex. -/
def Begins : Shape → ℕ → Prop
  | points ps, e => e < ps.size
  | polyline vs, e => e = 0 ∧ e < vs.size - 1
  | polygon P, e => ∃ k, IsPlace P.loops e k 0

/-- The chains of a shape begin where the edges that begin them do. -/
structure Chained (s : Shape) : Prop where
  /-- The starts are those of the edges that begin a chain, by ascending number. -/
  starts_eq : ∃ ids : List ℕ, ids.Pairwise (· < ·) ∧ (∀ e, e ∈ ids ↔ s.Begins e) ∧
    s.chainStarts.map some = ids.map fun e => (s.edge? e).map Edge.start
  /-- Only a shape without edges has no chain. -/
  eq_nil_iff : s.chainStarts = [] ↔ s.edgeCount = 0

/-- The edges that begin a chain, in order. -/
def chainEdges : Shape → List ℕ
  | points ps => List.range ps.size
  | polyline vs => if vs.size ≥ 2 then [0] else []
  | polygon P => firstEdges 0 P.loops

lemma mem_chainEdges : e ∈ s.chainEdges ↔ s.Begins e := by
  cases s with
  | points ps => exact List.mem_range
  | polyline vs =>
    simp only [chainEdges, Begins]
    split
    · rw [List.mem_singleton]
      omega
    · simp only [List.not_mem_nil, false_iff]
      omega
  | polygon P => simp [chainEdges, Begins, mem_firstEdges]

lemma pairwise_chainEdges (s : Shape) : s.chainEdges.Pairwise (· < ·) := by
  cases s with
  | points ps => exact List.pairwise_lt_range
  | polyline vs =>
    simp only [chainEdges]
    split <;> simp
  | polygon P => exact pairwise_firstEdges 0 P.loops

lemma map_start_chainEdges (s : Shape) :
    (s.chainEdges.map fun e => (s.edge? e).map Edge.start) = s.chainStarts.map some := by
  cases s with
  | points ps =>
    refine List.ext_getElem? fun i => ?_
    rcases lt_or_ge i ps.size with hi | hi
    · simp [chainEdges, chainStarts, edge?, Edge.degenerate, hi]
    · simp [chainEdges, chainStarts, hi]
  | polyline vs =>
    simp only [chainEdges, chainStarts]
    split
    · have hfirst : 0 < vs.size := by omega
      have hsecond : 1 < vs.size := by omega
      simp [edge?, hfirst, hsecond]
    · rfl
  | polygon P => exact map_start_firstEdges 0 P.loops

/-- The first edge begins a chain. -/
lemma begins_zero (h : 0 < s.edgeCount) : s.Begins 0 := by
  cases s with
  | points ps => exact h
  | polyline vs => exact ⟨rfl, h⟩
  | polygon P =>
    have h : 0 < P.edgeCount := h
    rw [P.edgeCount_eq_before] at h
    obtain ⟨k, j, hplace⟩ := exists_isPlace h
    obtain ⟨-, -, -, hzero⟩ := id hplace
    obtain rfl : j = 0 := by omega
    exact ⟨k, hplace⟩

lemma Begins.lt_edgeCount (h : s.Begins e) : e < s.edgeCount := by
  cases s with
  | points ps => exact h
  | polyline vs => exact h.2
  | polygon P =>
    obtain ⟨k, hplace⟩ := h
    show e < P.edgeCount
    rw [P.edgeCount_eq_before]
    exact (hplace.lt_before (Nat.lt_succ_self k)).trans_le (before_le_length _ _)

theorem chained (s : Shape) : s.Chained where
  starts_eq := ⟨s.chainEdges, s.pairwise_chainEdges, fun _ => mem_chainEdges,
    s.map_start_chainEdges.symm⟩
  eq_nil_iff := by
    have hnil : s.chainStarts = [] ↔ s.chainEdges = [] := by
      rw [← List.map_eq_nil_iff (f := some), ← s.map_start_chainEdges, List.map_eq_nil_iff]
    rw [hnil, List.eq_nil_iff_forall_not_mem]
    constructor
    · intro h
      by_contra hne
      exact h 0 (mem_chainEdges.2 (begins_zero (Nat.pos_of_ne_zero hne)))
    · intro hzero e he
      have hlt := (mem_chainEdges.1 he).lt_edgeCount
      omega

/-- **The numbers of edges.**  The edges of a polygon are numbered loop by loop, so that the numbers
below their number, the vertices at which they begin and those at which they end correspond one to
one; and the chains of every shape begin where the edges do that begin them. -/
theorem numbered_and_chained (P : Polygon) (s : Shape) : P.Numbered ∧ s.Chained :=
  ⟨P.numbered, s.chained⟩

end Shape

end SphereSearch
