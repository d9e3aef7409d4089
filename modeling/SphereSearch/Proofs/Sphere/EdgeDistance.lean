import SphereSearch.Proofs.Number.Sign
import SphereSearch.Proofs.Sphere.ChordOrder
import SphereSearch.Sphere.Crossing

/-!
# Distances are not negative

Squared lengths are sums of squares, so that no measurement of points and edges ever gives the
chord `negative` (`Edge.zero_le_of_closerPoint?`, `Edge.zero_le_of_closerEdge?`).  Where the
nearest point of an edge is one of its ends, the measured distance does not depend on the limit
(`Edge.closerPoint?_eq_ofChord`, `Edge.closerEdge?_eq_ofChord`).
-/

namespace SphereSearch

lemma Point.norm2_not_neg (p : Point) : ¬ p.norm2 < 0.0 :=
  Binary64.add_not_neg
    (Binary64.add_not_neg (Binary64.mul_self_not_neg _) (Binary64.mul_self_not_neg _))
    (Binary64.mul_self_not_neg _)

lemma Point.chord2_not_neg (p q : Point) : ¬ p.chord2 q < 0.0 := (p - q).norm2_not_neg

namespace Chord

/-- The chord of a length that is not below zero is a distance. -/
lemma zero_le_ofLen2 {x : Float} (h : ¬ x < 0.0) : zero ≤ ofLen2 x := by
  apply zero_le_of_ne_negative
  simp only [ofLen2]
  rw [dif_neg h]
  split
  · decide
  · intro heq
    have hlen : Binary64.minNum x 4.0 = -1.0 := congrArg len2 heq
    simp only [Binary64.minNum] at hlen
    split at hlen
    · exact h (by rw [hlen]; decide)
    · exact absurd hlen (by decide)

lemma zero_le_between (p q : Point) : zero ≤ between p q := zero_le_ofLen2 (p.chord2_not_neg q)

lemma isZero_eq_false {c : Chord} (h : zero < c) : c.isZero = false := by
  rw [isZero, Bool.eq_false_iff]
  intro heq
  have hle : c.len2 ≤ 0.0 := by
    rw [Binary64.le_iff_compare, Binary64.beq_iff_compare.1 heq]
    rfl
  exact not_le.2 h ((len2_le_iff le_rfl).1 hle)

end Chord

namespace Closer

/-- Whatever a chain of tests finds was found by one of them. -/
lemma exists_of_chain {tests : List Closer} {least d : Chord} (h : chain tests least = some d) :
    ∃ test ∈ tests, ∃ m, test m = some d := by
  have hfold : ∀ (tests : List Closer) (found : Option Chord),
      tests.foldl (fun found test => (test (found.getD least)).or found) found = some d →
        found = some d ∨ ∃ test ∈ tests, ∃ m, test m = some d := by
    intro tests
    induction tests with
    | nil => exact fun found h => Or.inl h
    | cons test rest ih =>
      intro found h
      rw [List.foldl_cons] at h
      rcases ih _ h with h | ⟨t, ht, m, hm⟩
      · rcases Option.or_eq_some_iff.1 h with h | ⟨-, h⟩
        · exact Or.inr ⟨test, by simp, _, h⟩
        · exact Or.inl h
      · exact Or.inr ⟨t, by simp [ht], m, hm⟩
  rcases hfold tests none h with h | h
  · exact absurd h (by simp)
  · exact h

/-- Repeating a test for a known distance changes nothing. -/
lemma chain_replicate (c m : Chord) (n : ℕ) :
    chain (List.replicate (n + 1) (ofChord c)) m = ofChord c m := by
  have hfold : ∀ (n : ℕ) (found : Option Chord), ofChord c (found.getD m) = none →
      (List.replicate n (ofChord c)).foldl
        (fun found test => (test (found.getD m)).or found) found = found := by
    intro n found hnone
    induction n with
    | zero => rfl
    | succ n ih => rw [List.replicate_succ, List.foldl_cons, hnone, Option.none_or, ih]
  rw [chain, List.replicate_succ, List.foldl_cons, Option.getD_none, Option.or_none]
  refine hfold n _ ?_
  rcases lt_or_ge c m with hlt | hge
  · rw [show ofChord c m = some c from if_pos hlt]
    exact if_neg (lt_irrefl c)
  · have hnone : ofChord c m = none := if_neg (not_lt.2 hge)
    rw [hnone]
    exact hnone

/-- What a test measures from the start is no less than all that it can find. -/
lemma le_distance {test : Closer} {c : Chord} (h : ∀ m d, test m = some d → c ≤ d) :
    c ≤ distance test := by
  simp only [distance]
  cases hd : test Chord.infinity with
  | none => exact Chord.le_infinity c
  | some d => exact h _ d hd

lemma eq_some_of_ofChord {d m e : Chord} (h : ofChord d m = some e) : d < m ∧ e = d := by
  simp only [ofChord] at h
  split at h
  · rename_i hlt
    exact ⟨hlt, (Option.some.inj h).symm⟩
  · exact absurd h (by simp)

end Closer

namespace Edge

/-- The square of a distance to the interior of an edge is not below zero. -/
lemma interiorLen2?_not_neg {e : Edge} {x : Point} {a b : Float} {least : Chord} {len2 : Float}
    (h : e.interiorLen2? x a b least = some len2) : ¬ len2 < 0.0 := by
  unfold interiorLen2? at h
  split at h
  · exact absurd h (by simp)
  · dsimp only at h
    split at h
    · exact absurd h (by simp)
    · rename_i hnormal
      split at h
      · exact absurd h (by simp)
      · split at h
        · exact absurd h (by simp)
        · split at h
          · exact absurd h (by simp)
          · rw [← Option.some.inj h]
            exact Binary64.add_not_neg
              (Binary64.div_not_neg (Binary64.mul_self_not_neg _) (Point.norm2_not_neg _) hnormal)
              (Binary64.mul_self_not_neg _)

lemma zero_le_of_closerPoint? {e : Edge} {x : Point} {least d : Chord}
    (h : e.closerPoint? x least = some d) : Chord.zero ≤ d := by
  simp only [closerPoint?] at h
  split at h
  · rename_i len2 hlen
    rw [← Option.some.inj h]
    exact Chord.zero_le_ofLen2 (interiorLen2?_not_neg hlen)
  · split at h
    · exact absurd h (by simp)
    · rw [← Option.some.inj h]
      exact Chord.zero_le_ofLen2
        (Binary64.minNum_not_neg (Point.chord2_not_neg _ _) (Point.chord2_not_neg _ _))

lemma zero_le_of_closerEdge? {e f : Edge} {least d : Chord}
    (h : e.closerEdge? f least = some d) : Chord.zero ≤ d := by
  simp only [closerEdge?] at h
  split at h
  · exact absurd h (by simp)
  · split at h
    · rw [← Option.some.inj h]
    · obtain ⟨test, htest, m, hm⟩ := Closer.exists_of_chain h
      simp only [endTests, List.mem_cons, List.not_mem_nil, or_false] at htest
      rcases htest with rfl | rfl | rfl | rfl <;> exact zero_le_of_closerPoint? hm

/-- Where the angles at the ends of an edge are not both acute, the distance to it is that to
the nearer end, whatever the limit. -/
lemma closerPoint?_eq_ofChord {e : Edge} {x : Point} {c : Chord} (hc : Chord.zero ≤ c)
    (hends : Binary64.maxNum (x.chord2 e.start) (x.chord2 e.stop) ≥
      Binary64.minNum (x.chord2 e.start) (x.chord2 e.stop) + e.start.chord2 e.stop)
    (hlen : Binary64.minNum (x.chord2 e.start) (x.chord2 e.stop) = c.len2)
    (hof : Chord.ofLen2 c.len2 = c) : e.closerPoint? x = Closer.ofChord c := by
  funext least
  have hinterior : e.interiorLen2? x (x.chord2 e.start) (x.chord2 e.stop) least = none := by
    rw [interiorLen2?, if_pos hends]
  simp only [closerPoint?]
  rw [hinterior, hlen, hof, Closer.ofChord]
  dsimp only
  by_cases h : c < least
  · rw [if_pos h, if_neg fun hge => not_le.2 h ((Chord.len2_le_iff hc).1 hge)]
  · rw [if_neg h, if_pos ((Chord.len2_le_iff hc).2 (not_lt.1 h))]

/-- Where all tests between the ends agree on a distance, it is that of the edges, against the
limits above zero. -/
lemma closerEdge?_eq_ofChord {e f : Edge} {c m : Chord} (hm : Chord.zero < m)
    (hcross : e.crosses f = false)
    (htests : ∀ test ∈ e.endTests f, test = Closer.ofChord c) :
    e.closerEdge? f m = Closer.ofChord c m := by
  have hchain : e.endTests f = List.replicate 4 (Closer.ofChord c) :=
    List.eq_replicate_iff.2 ⟨rfl, htests⟩
  simp only [closerEdge?]
  rw [Chord.isZero_eq_false hm, if_neg Bool.false_ne_true, hcross, if_neg Bool.false_ne_true,
    hchain]
  exact Closer.chain_replicate c m 3

end Edge

end SphereSearch
