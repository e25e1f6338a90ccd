import Graft.Proofs.Registration.Regular
import Graft.Proofs.Script.Pushing

/-
One insertion, with all offsets.

* `apply_comm` — **insertions at two places may be made in either order**, with the later place moved;
* `Sits.tokens_apply` — **an insertion that sits pushes the tokens apart and puts its own in between**;
* `lineEnd_apply`, `QuietLine.apply` — a line that no insertion is made on is as long and as quiet as before.
-/
namespace Graft.Registration

open Script

variable {source : Text} {e f : Insertion} {n : Nat}

/-! ### Texts -/

theorem apply_append {A B : Text} (h : place e = A.length) : e.apply (A ++ B) = A ++ (e.text ++ B) := by
  rw [place] at h
  rw [Insertion.apply, h, List.take_left, List.drop_left, List.append_assoc]

theorem apply_eq (e : Insertion) (source : Text) :
    e.apply source = source.take (place e) ++ (e.text ++ source.drop (place e)) :=
  List.append_assoc _ _ _

/-- Behind an insertion stands what stood behind its place. -/
theorem drop_apply (he : place e ≤ source.length) :
    (e.apply source).drop (place e + e.text.length) = source.drop (place e) := by
  have hlen : (source.take (place e) ++ e.text).length = place e + e.text.length := by
    rw [List.length_append, List.length_take, Nat.min_eq_left he]
  rw [apply_eq, ← List.append_assoc, ← hlen, List.drop_left]

/-- An insertion that goes to the same place when `k` characters are put in at the place `n`. -/
def pushInsertion (n k : Nat) (e : Insertion) : Insertion := ⟨(pushStart n k (place e) : Nat), e.text⟩

theorem place_push (n k : Nat) (e : Insertion) : place (pushInsertion n k e) = pushStart n k (place e) :=
  Int.toNat_natCast _

/-- **Insertions at two places may be made in either order.** -/
theorem apply_comm (hlt : place e < place f) (hf : place f ≤ source.length) :
    e.apply (f.apply source) = (pushInsertion (place e) e.text.length f).apply (e.apply source) := by
  obtain ⟨A, B, C, rfl, hA, hB⟩ : ∃ A B C, source = A ++ (B ++ C) ∧ place e = A.length ∧
      place f = (A ++ B).length := by
    refine ⟨source.take (place e), (source.take (place f)).drop (place e), source.drop (place f), ?_, ?_,
      ?_⟩
    · rw [slice_append_drop hlt.le hf, List.take_append_drop]
    · rw [List.length_take]
      omega
    · rw [List.length_append, List.length_take, List.length_drop, List.length_take]
      omega
  have hpush : place (pushInsertion (place e) e.text.length f) = (A ++ (e.text ++ B)).length := by
    rw [place_push, pushStart, if_neg (Nat.not_lt.mpr hlt.le), hB]
    simp only [List.length_append]
    omega
  rw [apply_append hA, ← List.append_assoc A B C, apply_append hB, List.append_assoc A B,
    apply_append hA, ← List.append_assoc e.text B C, ← List.append_assoc A (e.text ++ B) C,
    apply_append hpush]
  simp only [List.append_assoc]
  rfl

/-! ### Tokens -/

theorem Sits.pieces_apply (h : Sits source e) (hc : Closed source) : pieces (e.apply source) =
    pieces (source.take (place e)) ++ (pieces e.text ++ pieces (source.drop (place e))) := by
  have hbefore : Joins (source.take (place e)) (e.text ++ source.drop (place e)) :=
    joins_of_head? h.before (List.head?_append_of_ne_nil _ h.nonempty)
  rw [apply_eq, pieces_append (h.between.closed_take hc) hbefore, pieces_append h.closed h.after]

theorem Sits.closed_apply (h : Sits source e) (hc : Closed source) : Closed (e.apply source) := by
  intro p hp
  rw [h.pieces_apply hc, List.mem_append, List.mem_append] at hp
  rcases hp with hp | hp | hp
  · exact h.between.closed_take hc p hp
  · exact h.closed p hp
  · exact hc p (by rw [h.between]; exact List.mem_append_right _ hp)

/-- The tokens on both sides of a place between pieces. -/
structure Sides (source : Text) (n : Nat) (A M : List Token) : Prop where
  eq : tokens source = A ++ M
  -- The tokens before the place stop there, or before it.
  before : ∀ t ∈ A, t.start < n ∧ t.stop ≤ n
  -- The tokens after it start there, or later.
  after : ∀ t ∈ M, n ≤ t.start ∧ n < t.stop
  -- They are those of the text before, and those of the text after.
  take : tokens (source.take n) = A
  drop : tokensFrom n (pieces (source.drop n)) = M

theorem sides_of_between (hn : n ≤ source.length) (hb : Between source n) {A M : List Token}
    (hts : tokens source = A ++ M) (htake : tokens (source.take n) = A) : Sides source n A M := by
  have hdrop : tokensFrom n (pieces (source.drop n)) = M := by
    have hsplit := tokens_eq_of_between hn hb
    rw [hts, htake] at hsplit
    exact (List.append_cancel_left hsplit).symm
  have hpos {t : Token} (ht : t ∈ A ++ M) : t.start < t.stop := start_lt_stop (by rwa [hts])
  refine ⟨hts, fun t ht => ?_, fun t ht => ?_, htake, hdrop⟩
  · have hlt := hpos (List.mem_append_left _ ht)
    have hstop := stop_le_length (by rwa [htake] : t ∈ tokens (source.take n))
    rw [List.length_take] at hstop
    omega
  · have hlt := hpos (List.mem_append_right _ ht)
    have hstart := le_start_of_mem (by rwa [hdrop] : t ∈ tokensFrom n (pieces (source.drop n)))
    omega

theorem Sides.parted {A M : List Token} (h : Sides source n A M) : Parted n (tokens source) := by
  intro t ht
  rw [h.eq, List.mem_append] at ht
  rcases ht with ht | ht
  · have := h.before t ht
    exact iff_of_true this.1 this.2
  · have := h.after t ht
    exact iff_of_false (by omega) (by omega)

theorem Sides.map_push {A M : List Token} (h : Sides source n A M) (k : Nat) :
    (tokens source).map (Token.push n k) = A ++ M.map (Token.shift k) := by
  rw [h.eq, List.map_append, map_push_of_lt fun t ht => (h.before t ht).1,
    map_push_of_le fun t ht => (h.after t ht).1]

/-- **An insertion that sits pushes the tokens apart and puts its own in between.** -/
theorem Sits.tokens_apply (h : Sits source e) (hc : Closed source) {A M : List Token}
    (hsides : Sides source (place e) A M) : tokens (e.apply source) =
      A ++ (tokensFrom (place e) (pieces e.text) ++ M.map (Token.shift e.text.length)) := by
  have hwidth : width (pieces (source.take (place e))) = place e := by
    rw [width_pieces, List.length_take, Nat.min_eq_left h.place_le]
  rw [tokens, h.pieces_apply hc, tokensFrom_append, tokensFrom_append, Nat.zero_add, hwidth, width_pieces,
    tokensFrom_shift, hsides.drop, ← hsides.take]
  rfl

/-! ### Lines -/

/-- The rest of a line that an insertion does not stand on is as before. -/
theorem line_apply (he : place e ≤ source.length) (h : lineEnd source n < place e ∨ place e < n) :
    ((e.apply source).drop (pushStop (place e) e.text.length n)).takeWhile (· != '\n') =
      (source.drop n).takeWhile (· != '\n') := by
  rcases h with h | h
  · -- The line ends before the insertion.
    have hlen : (source.take (place e)).length = place e := by
      rw [List.length_take, Nat.min_eq_left he]
    have hn : n ≤ (source.take (place e)).length := by
      rw [lineEnd] at h
      omega
    have hsource : source.drop n = (source.take (place e)).drop n ++ source.drop (place e) :=
      (slice_append_drop (hlen ▸ hn) he).symm
    have hshort : ¬ (((source.take (place e)).drop n).takeWhile (· != '\n')).length =
        ((source.take (place e)).drop n).length := by
      intro hall
      have hline : ((source.drop n).takeWhile (· != '\n')).length < place e - n := by
        rw [lineEnd] at h
        omega
      rw [hsource, List.takeWhile_append, if_pos hall, List.length_append, List.length_drop] at hline
      omega
    rw [apply_eq, pushStop, if_pos (by omega), List.drop_append_of_le_length hn, hsource, List.takeWhile_append,
      if_neg hshort, List.takeWhile_append, if_neg hshort]
  · -- The line begins after it.
    have hshift : n + e.text.length = place e + e.text.length + (n - place e) := by omega
    rw [pushStop, if_neg (by omega), hshift, ← List.drop_drop, drop_apply he, List.drop_drop]
    congr 2
    omega

theorem lineEnd_apply (he : place e ≤ source.length) (h : lineEnd source n < place e ∨ place e < n) :
    lineEnd (e.apply source) (pushStop (place e) e.text.length n) =
      pushStart (place e) e.text.length (lineEnd source n) := by
  rw [lineEnd, line_apply he h]
  have hle : n ≤ lineEnd source n := Nat.le_add_right _ _
  rcases h with h | h
  · rw [pushStop, if_pos (by omega), pushStart, if_pos h]
    rfl
  · rw [pushStop, if_neg (by omega), pushStart, if_neg (by omega), lineEnd]
    omega

theorem QuietLine.apply (hq : QuietLine source n) (he : place e ≤ source.length)
    (h : lineEnd source n < place e ∨ place e < n) :
    QuietLine (e.apply source) (pushStop (place e) e.text.length n) := by
  rw [QuietLine, line_apply he h]
  exact hq

end Graft.Registration
