import SphereSearch.Proofs.Search.ResultOrder
import SphereSearch.Proofs.Sphere.ChordDifference
import SphereSearch.Search.Collector

/-!
# What a collector knows

A collector that has been offered a set of results holds the least of them
(`Collector.Represents`, `Represents.results_eq`), in whichever of the three ways it keeps them.
Its limit never exceeds the first one (`Represents.limit_le`).  Without an allowance for error it
never shrinks so far that it would refuse a result that belongs to the answer: whatever is not
below the limit has enough results below it to be left out (`Represents.beaten_of_limit_le`).  So
the answer does not depend on results that were never offered, as long as each of them is settled
in that sense (`firstOf_sort_eq`).

With an allowance for error the limit drops below results that are kept, but below none of them
by more than the allowance (`Serves.sub_le_limit`), and it never rises again
(`Serves.limit_le_limit`).
-/

namespace SphereSearch.Search

/-! ### Leaving results out -/

/-- The first `k` elements of a list, or all of them where `k` means that there is no limit. -/
def firstOf (k : ℕ) (l : List Result) : List Result := if k = unlimited then l else l.take k

/-- A list that is short enough has no more elements than there may be without a limit. -/
lemma firstOf_eq_take {k : ℕ} {l : List Result} (h : l.length ≤ unlimited) :
    firstOf k l = l.take k := by
  simp only [firstOf]
  split
  · rename_i hk
    rw [hk, List.take_of_length_le h]
  · rfl

/-- If there are fewer than allowed, nothing has been left out. -/
lemma mem_firstOf_of_length_lt {k : ℕ} {l : List Result} {r : Result} (hr : r ∈ l)
    (h : (firstOf k l).length < k) : r ∈ firstOf k l := by
  simp only [firstOf] at h ⊢
  split
  · exact hr
  · rename_i hk
    rw [if_neg hk, List.length_take] at h
    rw [List.take_of_length_le (by omega)]
    exact hr

lemma mem_of_mem_firstOf {k : ℕ} {l : List Result} {r : Result} (h : r ∈ firstOf k l) : r ∈ l := by
  simp only [firstOf] at h
  split at h
  · exact h
  · exact List.mem_of_mem_take h

/-- There are so many results below a given one that it is not among the first `k`. -/
def Beaten (k : ℕ) (S : Finset Result) (r : Result) : Prop :=
  k ≠ unlimited ∧ k ≤ (S.filter (· < r)).card

/-- A result was offered, or those offered leave it out. -/
def Settled (k : ℕ) (S : Finset Result) (r : Result) : Prop := r ∈ S ∨ Beaten k S r

lemma Beaten.mono {k : ℕ} {S T : Finset Result} {r : Result} (hST : S ⊆ T) (h : Beaten k S r) :
    Beaten k T r :=
  ⟨h.1, h.2.trans (Finset.card_le_card (Finset.filter_subset_filter _ hST))⟩

lemma Settled.mono {k : ℕ} {S T : Finset Result} {r : Result} (hST : S ⊆ T)
    (h : Settled k S r) : Settled k T r :=
  h.imp (fun hr => hST hr) (Beaten.mono hST)

/-- **Settled results do not change the answer.**  The first elements of a set are those of a
part of it that settles all its elements. -/
theorem firstOf_sort_eq {k : ℕ} {S T : Finset Result} (hST : S ⊆ T)
    (h : ∀ r ∈ T, Settled k S r) : firstOf k T.sort = firstOf k S.sort := by
  simp only [firstOf]
  split
  · rename_i hk
    have hTS : T ⊆ S := fun r hr => (h r hr).resolve_right fun hb => hb.1 hk
    rw [Finset.Subset.antisymm hST hTS]
  · have hsorted : ∀ U : Finset Result, (U.sort.take k).SortedLT := fun U =>
      (U.sortedLT_sort.pairwise.sublist (List.take_sublist k _)).sortedLT
    refine (hsorted T).eq_of_mem_iff (hsorted S) ?_
    intro r
    rw [Result.mem_take_sort, Result.mem_take_sort]
    constructor
    · rintro ⟨hr, hcard⟩
      rcases h r hr with hS | hb
      · refine ⟨hS, lt_of_le_of_lt (Finset.card_le_card ?_) hcard⟩
        exact Finset.filter_subset_filter _ hST
      · exact absurd (hb.mono hST).2 (not_le.2 hcard)
    · rintro ⟨hr, hcard⟩
      refine ⟨hST hr, lt_of_le_of_lt (Finset.card_le_card ?_) hcard⟩
      -- What `T` has below `r` is in `S`, or more than enough of `S` would be below `r`.
      intro t ht
      obtain ⟨htT, htr⟩ := Finset.mem_filter.1 ht
      rcases h t htT with hS | hb
      · exact Finset.mem_filter.2 ⟨hS, htr⟩
      · have hsub : S.filter (· < t) ⊆ S.filter (· < r) := by
          intro s hs
          obtain ⟨hsS, hst⟩ := Finset.mem_filter.1 hs
          exact Finset.mem_filter.2 ⟨hsS, hst.trans htr⟩
        exact absurd (hb.2.trans (Finset.card_le_card hsub)) (not_le.2 hcard)

/-- The first elements of a set are those of a part of it exactly if they all belong to the
part. -/
theorem firstOf_sort_eq_iff {k : ℕ} {S T : Finset Result} (hST : S ⊆ T) :
    firstOf k S.sort = firstOf k T.sort ↔ ∀ r ∈ firstOf k T.sort, r ∈ S := by
  constructor
  · intro heq r hr
    rw [← heq] at hr
    exact (Finset.mem_sort _).1 (mem_of_mem_firstOf hr)
  · intro hfirst
    refine (firstOf_sort_eq hST ?_).symm
    intro r hr
    by_cases hS : r ∈ S
    · exact Or.inl hS
    simp only [firstOf] at hfirst
    split at hfirst
    · exact absurd (hfirst r ((Finset.mem_sort _).2 hr)) hS
    · rename_i hk
      -- Since `r` is not among the first `k`, all of these come before it.
      have hnot : k ≤ (T.filter (· < r)).card := by
        by_contra hlt
        exact hS (hfirst r ((Result.mem_take_sort T k r).2 ⟨hr, not_le.1 hlt⟩))
      have hsub : (T.sort.take k).toFinset ⊆ S.filter (· < r) := by
        intro t ht
        rw [List.mem_toFinset] at ht
        refine Finset.mem_filter.2 ⟨hfirst t ht, ?_⟩
        by_contra hge
        obtain ⟨-, hcard⟩ := (Result.mem_take_sort T k t).1 ht
        have hle : (T.filter (· < r)).card ≤ (T.filter (· < t)).card :=
          Finset.card_le_card fun s hs => Finset.mem_filter.2
            ⟨(Finset.mem_filter.1 hs).1, (Finset.mem_filter.1 hs).2.trans_le (not_lt.1 hge)⟩
        omega
      refine Or.inr ⟨hk, ?_⟩
      have hcard := Finset.card_le_card hsub
      rw [List.toFinset_card_of_nodup ((Finset.sort_nodup T _).sublist (List.take_sublist _ _)),
        List.length_take, Finset.length_sort] at hcard
      have hall := Finset.card_le_card (Finset.filter_subset (· < r) T)
      omega

/-- What is left out comes after the first elements. -/
lemma le_of_notMem_firstOf {k : ℕ} {S : Finset Result} {r worst : Result} (hr : r ∈ S)
    (hout : r ∉ firstOf k S.sort) (hworst : worst ∈ firstOf k S.sort) : worst ≤ r := by
  simp only [firstOf] at hout hworst
  split at hworst
  · rename_i hk
    rw [if_pos hk] at hout
    exact absurd ((Finset.mem_sort _).2 hr) hout
  · rename_i hk
    rw [if_neg hk, Result.mem_take_sort] at hout
    obtain ⟨-, hcard⟩ := (Result.mem_take_sort S k worst).1 hworst
    -- Otherwise all that comes before `r` would come before `worst`, and that is not enough.
    by_contra hlt
    refine hout ⟨hr, lt_of_le_of_lt (Finset.card_le_card ?_) hcard⟩
    intro s hs
    obtain ⟨hsS, hsr⟩ := Finset.mem_filter.1 hs
    exact Finset.mem_filter.2 ⟨hsS, hsr.trans (not_le.1 hlt)⟩

/-! ### Representation -/

/-- What is kept of a set of results by a collector of the given capacity. -/
def Kept.Holds (k : ℕ) (S : Finset Result) : Kept → Prop
  | one result? => k = 1 ∧ result?.toList = S.sort.take k
  | every results => k = unlimited ∧ results.toFinset = S
  | ranked results => k ≠ unlimited ∧ results = S.sort.take k

/-- A set of results fills a collector of the given capacity. -/
def Full (k : ℕ) (S : Finset Result) : Prop := k ≠ unlimited ∧ k ≤ S.card

namespace Collector

/-- The collector started with the limit `M` and has been offered the results in `S`. -/
structure Represents (c : Collector) (M : Chord) (S : Finset Result) : Prop where
  one_le_capacity : 1 ≤ c.capacity
  holds : c.kept.Holds c.capacity S
  below : ∀ r ∈ S, r.distance < M
  limit_of_not_full : ¬ Full c.capacity S → c.limit = M
  limit_of_full : Full c.capacity S → ∃ worst,
    (S.sort.take c.capacity).getLast? = some worst ∧ c.limit = cutoff c.maxError worst.distance

@[simp] lemma capacity_narrow (c : Collector) (kept : Kept) (worst : Result) :
    (c.narrow kept worst).capacity = c.capacity := rfl

/-- Offering a result changes neither the capacity nor the allowance for error. -/
lemma fixed_add (c : Collector) (r : Result) :
    (c.add r).capacity = c.capacity ∧ (c.add r).maxError = c.maxError := by
  unfold add
  split
  · exact ⟨rfl, rfl⟩
  · split <;> exact ⟨rfl, rfl⟩
  · exact ⟨rfl, rfl⟩
  · dsimp only
    split
    · exact ⟨rfl, rfl⟩
    · split <;> exact ⟨rfl, rfl⟩

@[simp] lemma capacity_add (c : Collector) (r : Result) : (c.add r).capacity = c.capacity :=
  (c.fixed_add r).1

@[simp] lemma maxError_add (c : Collector) (r : Result) : (c.add r).maxError = c.maxError :=
  (c.fixed_add r).2

/-- Without an allowance for error, exactly what is at most the worst distance is below the
limit. -/
lemma cutoff_le_iff {maxError worst d M : Chord} (herr : maxError = Chord.zero)
    (hworst : worst < M) : cutoff maxError worst ≤ d ↔ worst < d := by
  have hne : worst ≠ Chord.infinity := (hworst.trans_le (Chord.le_infinity M)).ne
  rw [cutoff, if_pos herr, ← not_lt, Chord.lt_successor_iff hne, not_le]

/-- The limit stays within a limit that the worst distance is below. -/
lemma cutoff_le {maxError worst M : Chord}
    (hsub : maxError ≠ Chord.zero → ∀ d : Chord, d - maxError ≤ d) (hworst : worst < M) :
    cutoff maxError worst ≤ M := by
  by_cases herr : maxError = Chord.zero
  · exact (cutoff_le_iff herr hworst).2 hworst
  · rw [cutoff, if_neg herr]
    exact (hsub herr worst).trans hworst.le

lemma length_take_sort (k : ℕ) (S : Finset Result) : (S.sort.take k).length = min k S.card := by
  rw [List.length_take, Finset.length_sort]

namespace Represents

variable {c : Collector} {M : Chord} {S : Finset Result}

/-- A collector that has seen nothing. -/
lemma empty {k : ℕ} (hk : 1 ≤ k) (maxError M : Chord) :
    (Collector.empty k maxError M).Represents M ∅ where
  one_le_capacity := hk
  holds := by
    show (Kept.empty k).Holds k ∅
    simp only [Kept.empty]
    split
    · rename_i h
      exact ⟨h, by simp⟩
    · split
      · rename_i h
        exact ⟨h, rfl⟩
      · rename_i h
        exact ⟨h, by simp⟩
  below := by simp
  limit_of_not_full _ := rfl
  limit_of_full h := by
    have hle : k ≤ (∅ : Finset Result).card := h.2
    rw [Finset.card_empty] at hle
    omega

/-- The results are the least of those offered. -/
lemma results_eq (h : c.Represents M S) : c.results = firstOf c.capacity S.sort := by
  have hholds := h.holds
  simp only [results, firstOf]
  cases hkept : c.kept with
  | one result? =>
    rw [hkept] at hholds
    obtain ⟨hk, hone⟩ := hholds
    rw [if_neg (by rw [hk]; decide), ← hone]
    rfl
  | every results =>
    rw [hkept] at hholds
    obtain ⟨hk, hall⟩ := hholds
    rw [if_pos hk, ← hall]
    exact Result.sort_eq results
  | ranked results =>
    rw [hkept] at hholds
    obtain ⟨hk, hranked⟩ := hholds
    rw [if_neg hk]
    exact hranked

/-- The worst result kept by a full collector is one of those offered. -/
lemma mem_of_worst (h : c.Represents M S) {worst : Result}
    (hw : (S.sort.take c.capacity).getLast? = some worst) : worst ∈ S ∧ worst.distance < M := by
  have hmem := List.mem_of_mem_take (List.mem_of_getLast? hw)
  rw [Finset.mem_sort] at hmem
  exact ⟨hmem, h.below worst hmem⟩

/-- All results kept are at most the worst of them. -/
lemma le_of_worst {k : ℕ} {worst r : Result} (hw : (S.sort.take k).getLast? = some worst)
    (hr : r ∈ S.sort.take k) : r ≤ worst := by
  have hsorted : (S.sort.take k).SortedLT :=
    (S.sortedLT_sort.pairwise.sublist (List.take_sublist _ _)).sortedLT
  obtain ⟨front, hfront⟩ := List.getLast?_eq_some_iff.1 hw
  rw [hfront] at hr hsorted
  rcases List.mem_append.1 hr with hr | hr
  · exact ((List.pairwise_append.1 hsorted.pairwise).2.2 r hr worst (by simp)).le
  · rw [List.mem_singleton.1 hr]

/-- The limit never exceeds the first one. -/
lemma limit_le (h : c.Represents M S)
    (hsub : c.maxError ≠ Chord.zero → ∀ d : Chord, d - c.maxError ≤ d) : c.limit ≤ M := by
  by_cases hfull : Full c.capacity S
  · obtain ⟨worst, hw, hlimit⟩ := h.limit_of_full hfull
    rw [hlimit]
    exact cutoff_le hsub (h.mem_of_worst hw).2
  · rw [h.limit_of_not_full hfull]

/-- What lies behind the worst result of a full collector is left out. -/
lemma beaten_of_worst_lt (hfull : Full c.capacity S) {worst r : Result}
    (hw : (S.sort.take c.capacity).getLast? = some worst) (hlt : worst < r) :
    Beaten c.capacity S r := by
  have hsub : (S.sort.take c.capacity).toFinset ⊆ S.filter (· < r) := by
    intro s hs
    rw [List.mem_toFinset] at hs
    rw [Finset.mem_filter]
    exact ⟨(Finset.mem_sort _).1 (List.mem_of_mem_take hs), (le_of_worst hw hs).trans_lt hlt⟩
  refine ⟨hfull.1, ?_⟩
  have hcard := Finset.card_le_card hsub
  rw [List.toFinset_card_of_nodup ((Finset.sort_nodup S _).sublist (List.take_sublist _ _)),
    length_take_sort, Nat.min_eq_left hfull.2] at hcard
  exact hcard

/-- **The limit refuses nothing that matters.**  Without an allowance for error, a result that is
not below the limit is left out by those offered before. -/
theorem beaten_of_limit_le (h : c.Represents M S) (herr : c.maxError = Chord.zero) {r : Result}
    (hr : r.distance < M) (hlimit : c.limit ≤ r.distance) : Beaten c.capacity S r := by
  by_cases hfull : Full c.capacity S
  · obtain ⟨worst, hw, hcutoff⟩ := h.limit_of_full hfull
    rw [hcutoff, cutoff_le_iff herr (h.mem_of_worst hw).2] at hlimit
    exact beaten_of_worst_lt hfull hw (Result.lt_of_distance_lt hlimit)
  · rw [h.limit_of_not_full hfull] at hlimit
    exact absurd hr (not_lt.2 hlimit)

lemma below_insert (h : c.Represents M S) {r : Result} (hr : r.distance < M) :
    ∀ s ∈ insert r S, s.distance < M := by
  intro s hs
  rcases Finset.mem_insert.1 hs with rfl | hs
  · exact hr
  · exact h.below s hs

/-- A collector of one that has been offered something. -/
lemma of_one {best : Result} (hk : c.capacity = 1) (hkept : c.kept = .one (some best))
    (hlimit : c.limit = cutoff c.maxError best.distance)
    (hbelow : ∀ s ∈ S, s.distance < M) (hbest : S.sort.take 1 = [best]) :
    c.Represents M S := by
  have hcard := congrArg List.length hbest
  rw [length_take_sort, List.length_singleton] at hcard
  have hfull : Full c.capacity S := by
    rw [hk]
    exact ⟨by decide, by omega⟩
  refine ⟨hk.ge, ?_, hbelow, fun hnot => absurd hfull hnot, fun _ => ⟨best, ?_, hlimit⟩⟩
  · rw [hkept, hk]
    exact ⟨rfl, hbest.symm⟩
  · rw [hk, hbest]
    rfl

/-- Offering a result to a collector of one. -/
lemma add_one (h : c.Represents M S) {r : Result} (hr : r.distance < M) {result? : Option Result}
    (hkept : c.kept = .one result?) : (c.add r).Represents M (insert r S) := by
  have hholds := h.holds
  rw [hkept] at hholds
  obtain ⟨hk, hone⟩ := hholds
  rw [hk] at hone
  have htake : (insert r S).sort.take 1 = (Result.insert r result?.toList).take 1 := by
    rw [← Result.insert_sort, ← Result.take_insert_take, hone]
  have hbelow := h.below_insert hr
  simp only [add]
  rw [hkept]
  cases result? with
  | none => exact of_one hk rfl rfl hbelow htake
  | some best =>
    dsimp only
    split
    · rename_i hle
      rw [ne_eq, compare_gt_iff_gt, not_lt] at hle
      have hlen := congrArg List.length hone
      rw [length_take_sort, Option.toList_some, List.length_singleton] at hlen
      obtain ⟨worst, hw, hlimit⟩ := h.limit_of_full (by rw [hk]; exact ⟨by decide, by omega⟩)
      rw [hk, ← hone] at hw
      obtain rfl : best = worst := by simpa using hw
      refine of_one hk hkept hlimit hbelow (htake.trans ?_)
      rw [Option.toList_some, Result.insert]
      split
      · rename_i hlt
        exact absurd (compare_lt_iff_lt.1 hlt) (not_lt.2 hle)
      · rfl
      · rfl
    · rename_i hgt
      rw [ne_eq, not_not, compare_gt_iff_gt] at hgt
      refine of_one hk rfl rfl hbelow (htake.trans ?_)
      rw [Option.toList_some, Result.insert, compare_lt_iff_lt.2 hgt]
      rfl

/-- Offering a result to a collector without a limit on their number. -/
lemma add_every (h : c.Represents M S) {r : Result} (hr : r.distance < M)
    {results : List Result} (hkept : c.kept = .every results) :
    (c.add r).Represents M (insert r S) := by
  have hholds := h.holds
  rw [hkept] at hholds
  obtain ⟨hk, hall⟩ := hholds
  have hadd : c.add r = { c with kept := .every (r :: results) } := by
    simp only [add]
    rw [hkept]
  have hnot : ∀ T, ¬ Full c.capacity T := fun T hfull => hfull.1 hk
  rw [hadd]
  exact ⟨h.one_le_capacity, ⟨hk, by rw [List.toFinset_cons, hall]⟩,
    h.below_insert hr, fun _ => h.limit_of_not_full (hnot S), fun hfull => absurd hfull (hnot _)⟩

/-- Offering a result to a collector that keeps an ascending list. -/
lemma add_ranked (h : c.Represents M S) {r : Result} (hr : r.distance < M)
    {results : List Result} (hkept : c.kept = .ranked results) :
    (c.add r).Represents M (insert r S) := by
  have hholds := h.holds
  rw [hkept] at hholds
  obtain ⟨hk, hranked⟩ := hholds
  have htake : (insert r S).sort.take c.capacity =
      (Result.insert r results).take c.capacity := by
    rw [← Result.insert_sort, ← Result.take_insert_take, hranked]
  have hlen := congrArg List.length htake
  rw [length_take_sort, List.length_take] at hlen
  have hresults : results.length = min c.capacity S.card := by rw [hranked, length_take_sort]
  have hmore := Result.length_insert_le r results
  have hless := Result.length_le_insert r results
  have hpos := h.one_le_capacity
  have hbelow := h.below_insert hr
  simp only [add]
  rw [hkept]
  dsimp only
  split
  · rename_i hlt
    -- There is room left: nothing is dropped and the limit stays.
    have hnot : ¬ Full c.capacity (insert r S) := fun hfull => by
      have := hfull.2
      omega
    have hnotS : ¬ Full c.capacity S := fun hfull => by
      have := hfull.2
      omega
    refine ⟨hpos, ⟨hk, ?_⟩, hbelow, fun _ => h.limit_of_not_full hnotS,
      fun hfull => absurd hfull hnot⟩
    rw [htake, List.take_of_length_le hlt.le]
  · rename_i hge
    have hbest : (if (Result.insert r results).length > c.capacity then
        (Result.insert r results).dropLast else Result.insert r results) =
        (Result.insert r results).take c.capacity := by
      split
      · rw [List.dropLast_eq_take]
        congr 1
        omega
      · rw [List.take_of_length_le (by omega)]
    rw [hbest]
    split
    · rename_i worst hw
      refine ⟨hpos, ⟨hk, htake.symm⟩, hbelow, ?_, ?_⟩
      · intro hnot
        refine absurd ⟨hk, ?_⟩ hnot
        show c.capacity ≤ _
        omega
      · intro _
        exact ⟨worst, by rw [capacity_narrow, htake, hw], rfl⟩
    · rename_i hnone
      rw [List.getLast?_eq_none_iff] at hnone
      have hzero := congrArg List.length hnone
      rw [List.length_take, List.length_nil] at hzero
      omega

/-- **One offer.**  A collector that is offered a result within its first limit represents one
result more. -/
theorem add (h : c.Represents M S) {r : Result} (hr : r.distance < M) :
    (c.add r).Represents M (insert r S) := by
  cases hkept : c.kept with
  | one result? => exact h.add_one hr hkept
  | every results => exact h.add_every hr hkept
  | ranked results => exact h.add_ranked hr hkept

end Represents

/-- A collector of `k` results with the allowance `err` for error has been offered the results in
`S`, starting with the limit `M`. -/
structure Serves (k : ℕ) (err M : Chord) (c : Collector) (S : Finset Result) : Prop where
  capacity_eq : c.capacity = k
  maxError_eq : c.maxError = err
  represents : c.Represents M S

namespace Serves

variable {k : ℕ} {err M : Chord} {c : Collector} {S : Finset Result}

/-- The collector that has seen nothing. -/
lemma empty (hk : 1 ≤ k) (err M : Chord) : Serves k err M (Collector.empty k err M) ∅ :=
  ⟨rfl, rfl, .empty hk err M⟩

lemma add (h : Serves k err M c S) {r : Result} (hr : r.distance < M) :
    Serves k err M (c.add r) (insert r S) :=
  ⟨(capacity_add c r).trans h.capacity_eq, (maxError_add c r).trans h.maxError_eq,
    h.represents.add hr⟩

lemma results_eq (h : Serves k err M c S) : c.results = firstOf k S.sort := by
  rw [h.represents.results_eq, h.capacity_eq]

lemma limit_le (h : Serves k err M c S) (hsub : err ≠ Chord.zero → ∀ d : Chord, d - err ≤ d) :
    c.limit ≤ M :=
  h.represents.limit_le (h.maxError_eq.symm ▸ hsub)

/-! ### With an allowance for error -/

section Allowance

variable (herr : err.Allowance)

include herr

/-- A collector that is not full has the first limit, and the limit of a full one is below its
worst result by the allowance for error. -/
lemma limit_cases (h : Serves k err M c S) :
    ¬ Full k S ∧ c.limit = M ∨ Full k S ∧ ∃ worst, (S.sort.take k).getLast? = some worst ∧
      worst ∈ S ∧ c.limit = worst.distance - err := by
  obtain ⟨rfl, rfl, h⟩ := h
  by_cases hfull : Full c.capacity S
  · obtain ⟨worst, hw, hlimit⟩ := h.limit_of_full hfull
    rw [cutoff, if_neg herr.pos.ne'] at hlimit
    exact Or.inr ⟨hfull, worst, hw, (h.mem_of_worst hw).1, hlimit⟩
  · exact Or.inl ⟨hfull, h.limit_of_not_full hfull⟩

/-- Once the limit has fallen, it is below the first one by the allowance for error. -/
lemma limit_le_sub (h : Serves k err M c S) (hlt : c.limit < M) : c.limit ≤ M - err := by
  rcases h.limit_cases herr with ⟨-, hlimit⟩ | ⟨-, worst, -, hworst, hlimit⟩
  · exact absurd hlt (hlimit ▸ lt_irrefl _)
  · rw [hlimit]
    exact herr.sub_le_sub _ _ (h.represents.below worst hworst).le

/-- The limit is below no result by more than the allowance for error. -/
lemma sub_le_limit (h : Serves k err M c S) {r : Result} (hr : r ∈ c.results) :
    r.distance - err ≤ c.limit := by
  rw [h.results_eq] at hr
  rcases h.limit_cases herr with ⟨-, hlimit⟩ | ⟨hfull, worst, hworst, -, hlimit⟩
  · rw [hlimit]
    exact (herr.sub_le _).trans
      (h.represents.below r ((Finset.mem_sort _).1 (mem_of_mem_firstOf hr))).le
  · rw [firstOf, if_neg hfull.1] at hr
    rw [hlimit]
    exact herr.sub_le_sub _ _ (Result.distance_le (Represents.le_of_worst hworst hr))

/-- **The limit only falls** when more results are offered. -/
theorem limit_le_limit (h : Serves k err M c S) {c' : Collector} {S' : Finset Result}
    (h' : Serves k err M c' S') (hS : S ⊆ S') : c'.limit ≤ c.limit := by
  rcases h.limit_cases herr with ⟨-, hlimit⟩ | ⟨hfull, worst, hworst, -, hlimit⟩
  · rw [hlimit]
    exact h'.limit_le fun _ => herr.sub_le
  · rcases h'.limit_cases herr with ⟨hnot, -⟩ | ⟨-, worst', hworst', -, hlimit'⟩
    · exact absurd ⟨hfull.1, hfull.2.trans (Finset.card_le_card hS)⟩ hnot
    · rw [hlimit, hlimit']
      refine herr.sub_le_sub _ _ (Result.distance_le ?_)
      -- Otherwise the worst of more results would have enough of the fewer ones before it.
      by_contra hlt
      obtain ⟨-, hcard⟩ := (Result.mem_take_sort S' k worst').1 (List.mem_of_getLast? hworst')
      have hbeaten : Beaten k S worst' := h.capacity_eq ▸ Represents.beaten_of_worst_lt
        (h.capacity_eq.symm ▸ hfull) (h.capacity_eq.symm ▸ hworst) (not_le.1 hlt)
      exact absurd (hbeaten.mono hS).2 (not_le.2 hcard)

end Allowance

end Serves

end Collector

end SphereSearch.Search
