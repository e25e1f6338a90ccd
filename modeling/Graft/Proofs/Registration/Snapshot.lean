import Graft.Proofs.Registration.Splice
import Mathlib.Data.List.Nodup

/-
Insertions against one snapshot of a text.

* `textsAt es p` — what insertions put at an offset, in the order in which they are listed;
* `interleaved t es` — a text with what insertions put before each of its characters, and at its end;
* `foldr_apply` — made from the last offset to the first, insertions are interleaved with the text;
* `filter_ordered` — insertions at one offset keep their order;
* `withdrawAll es u` — a text with insertions taken out again;
* `applyAll_snapshot` — **which insertions are refused, and what the others make of a text**.

Design notes: the induction is on the insertions in the order of their offsets, of which the last is
made first.  What has been made then agrees with the text up to the offset of the next one
(`interleaved_eq_take`), so that this offset still means the same place.
-/
namespace Graft.Insertion

open Registration

variable {t : Text} {es es' : List Insertion}

/-- An insertion at a place that a text has, its end included. -/
def Within (t : Text) (e : Insertion) : Prop := 0 ≤ e.position ∧ e.position ≤ t.length

instance (t : Text) : DecidablePred (Within t) := fun _ => inferInstanceAs (Decidable (_ ∧ _))

theorem fits_iff {e : Insertion} : fits t.length e = true ↔ Within t e := by
  rw [fits, Bool.and_eq_true, decide_eq_true_eq, decide_eq_true_eq, Within]

/-! ### Texts between characters -/

/-- What insertions put at an offset, in the order in which they are listed. -/
def textsAt (es : List Insertion) (p : Nat) : Text :=
  (es.filter fun e => e.position = (p : Int)).flatMap Insertion.text

/-- A text with what insertions put before each of its characters, and at its end. -/
def interleaved (t : Text) (es : List Insertion) : Text :=
  (List.range (t.length + 1)).flatMap fun p => textsAt es p ++ t[p]?.toList

theorem textsAt_eq_nil {p : Nat} (h : ∀ e ∈ es, (p : Int) < e.position) : textsAt es p = [] := by
  have hnone : es.filter (fun e => e.position = (p : Int)) = [] := by
    rw [List.filter_eq_nil_iff]
    intro e he
    have := h e he
    simp only [decide_eq_true_eq]
    omega
  rw [textsAt, hnone, List.flatMap_nil]

theorem textsAt_cons (e : Insertion) (es : List Insertion) (p : Nat) :
    textsAt (e :: es) p = (if e.position = (p : Int) then e.text else []) ++ textsAt es p := by
  rw [textsAt, List.filter_cons]
  by_cases h : e.position = (p : Int)
  · simp [h, textsAt]
  · simp [h, textsAt]

theorem flatMap_getElem? (t : Text) (p : Nat) :
    ((List.range p).flatMap fun q => t[q]?.toList) = t.take p := by
  induction p with
  | zero => rfl
  | succ p ih =>
    rw [List.range_succ, List.flatMap_append, ih, List.flatMap_singleton, List.take_add_one]

/-- Up to the offset of the first insertion the text is as it was. -/
theorem interleaved_eq_take {p : Nat} (hp : p ≤ t.length) (h : ∀ e ∈ es, (p : Int) ≤ e.position) :
    interleaved t es = t.take p ++ (List.range (t.length - p + 1)).flatMap fun q =>
      textsAt es (p + q) ++ t[p + q]?.toList := by
  have hlen : t.length + 1 = p + (t.length - p + 1) := by omega
  have hbefore : ((List.range p).flatMap fun q => textsAt es q ++ t[q]?.toList) = t.take p := by
    rw [← flatMap_getElem?]
    refine List.flatMap_congr fun q hq => ?_
    have hlt := List.mem_range.mp hq
    rw [textsAt_eq_nil fun e he => by have := h e he; omega, List.nil_append]
  rw [interleaved, hlen, List.range_add, List.flatMap_append, hbefore, List.flatMap_map]

/-- The first of insertions, made after the others. -/
theorem apply_interleaved {e : Insertion} (he : Within t e)
    (h : ∀ f ∈ es, e.position ≤ f.position) :
    e.apply (interleaved t es) = interleaved t (e :: es) := by
  obtain ⟨p, hp⟩ := Int.eq_ofNat_of_zero_le he.1
  have hle : p ≤ t.length := by
    have := he.2
    omega
  have hes : ∀ f ∈ es, (p : Int) ≤ f.position := fun f hf => hp ▸ h f hf
  have hall : ∀ f ∈ e :: es, (p : Int) ≤ f.position :=
    List.forall_mem_cons.mpr ⟨by omega, hes⟩
  have hlen : (t.take p).length = p := by
    rw [List.length_take]
    omega
  -- Behind the offset of `e` the two differ by its text, which comes first.
  have hfirst (q : Nat) : textsAt (e :: es) (p + (q + 1)) = textsAt es (p + (q + 1)) := by
    rw [textsAt_cons, if_neg (by omega), List.nil_append]
  rw [interleaved_eq_take hle hes, interleaved_eq_take hle hall, apply, hp, Int.toNat_natCast,
    List.take_left' hlen, List.drop_left' hlen, List.range_succ_eq_map, List.flatMap_cons,
    List.flatMap_cons, List.flatMap_map, List.flatMap_map]
  simp only [Nat.succ_eq_add_one, hfirst]
  rw [Nat.add_zero, textsAt_cons, if_pos hp]
  simp only [List.append_assoc]

/-- **Insertions in the order of their offsets, made from the last to the first, are interleaved with
the text.** -/
theorem foldr_apply (hw : ∀ e ∈ es, Within t e)
    (hsorted : es.Pairwise fun e f => e.position ≤ f.position) :
    es.foldr apply t = interleaved t es := by
  induction es with
  | nil =>
    rw [interleaved_eq_take le_rfl (by simp), List.take_length, Nat.sub_self]
    simp [textsAt]
  | cons e es ih =>
    obtain ⟨hle, hrest⟩ := List.pairwise_cons.mp hsorted
    obtain ⟨he, hes⟩ := List.forall_mem_cons.mp hw
    rw [List.foldr_cons, ih hes hrest, apply_interleaved he hle]

/-! ### The order in which insertions are made -/

theorem ordered_perm (es : List Insertion) : (ordered es).Perm es := List.mergeSort_perm _ _

/-- Insertions at one offset keep their order. -/
theorem filter_ordered (es : List Insertion) (p : Int) :
    (ordered es).filter (fun e => e.position = p) = es.filter fun e => e.position = p := by
  have hsame : (es.filter fun e => e.position = p).Pairwise
      fun e f => decide (e.position ≤ f.position) = true := by
    refine List.pairwise_iff_forall_sublist.mpr fun {e f} hef => ?_
    have he := List.of_mem_filter (hef.subset (a := e) (by simp))
    have hf := List.of_mem_filter (hef.subset (a := f) (by simp))
    simp only [decide_eq_true_eq] at he hf ⊢
    omega
  -- The sort is stable: what is in order already stays one run of it.
  have hsub : (es.filter fun e => e.position = p).Sublist (ordered es) := by
    refine List.sublist_mergeSort (fun a b c hab hbc => ?_) (fun a b => ?_) hsame
      List.filter_sublist
    · simp only [decide_eq_true_eq] at *
      omega
    · simp only [Bool.or_eq_true, decide_eq_true_eq]
      omega
  have hfilter := hsub.filter fun e => decide (e.position = p)
  simp only [List.filter_filter, Bool.and_self] at hfilter
  refine (hfilter.eq_of_length ?_).symm
  exact ((ordered_perm es).filter _).length_eq.symm

theorem interleaved_ordered (t : Text) (es : List Insertion) :
    interleaved t (ordered es) = interleaved t es := by
  refine List.flatMap_congr fun p _ => ?_
  rw [textsAt, filter_ordered, textsAt]

/-- Insertions at different offsets have one order, however they are listed. -/
theorem ordered_congr (hperm : es.Perm es') (hdistinct : (es.map position).Nodup) :
    ordered es = ordered es' := by
  refine List.Perm.eq_of_pairwise (fun e f he hf hef hfe => ?_) (ordered_pairwise_le es)
    (ordered_pairwise_le es') ((ordered_perm es).trans (hperm.trans (ordered_perm es').symm))
  have he := (ordered_perm es).mem_iff.mp he
  have hf := hperm.mem_iff.mpr ((ordered_perm es').mem_iff.mp hf)
  exact List.inj_on_of_nodup_map hdistinct he hf (Int.le_antisymm hef hfe)

/-! ### Insertions taken out again -/

/-- A text without what an insertion put at its offset. -/
def withdraw (e : Insertion) (u : Text) : Text :=
  u.take e.position.toNat ++ u.drop (e.position.toNat + e.text.length)

/-- A text without what insertions put into it, taken out from the first offset to the last. -/
def withdrawAll (es : List Insertion) (u : Text) : Text :=
  (ordered es).foldl (fun u e => e.withdraw u) u

theorem withdraw_apply {e : Insertion} {u : Text} (h : e.position.toNat ≤ u.length) :
    e.withdraw (e.apply u) = u := by
  have hlen : (u.take e.position.toNat).length = e.position.toNat := by
    rw [List.length_take]
    omega
  have htake : (e.apply u).take e.position.toNat = u.take e.position.toNat := by
    rw [apply, List.append_assoc, List.take_left' hlen]
  have hdrop : (e.apply u).drop (e.position.toNat + e.text.length) =
      u.drop e.position.toNat := by
    rw [apply]
    exact List.drop_left' (by rw [List.length_append, hlen])
  rw [withdraw, htake, hdrop, List.take_append_drop]

theorem length_le_foldr_apply (t : Text) (es : List Insertion) :
    t.length ≤ (es.foldr apply t).length := by
  induction es with
  | nil => exact le_rfl
  | cons e es ih =>
    rw [List.foldr_cons, apply, List.length_append, List.length_append, List.length_take,
      List.length_drop]
    omega

theorem foldl_withdraw (hw : ∀ e ∈ es, Within t e) :
    es.foldl (fun u e => e.withdraw u) (es.foldr apply t) = t := by
  induction es with
  | nil => rfl
  | cons e es ih =>
    obtain ⟨he, hes⟩ := List.forall_mem_cons.mp hw
    have hle : e.position.toNat ≤ (es.foldr apply t).length := by
      have h1 := he.2
      have h2 := length_le_foldr_apply t es
      omega
    rw [List.foldr_cons, List.foldl_cons, withdraw_apply hle, ih hes]

/-! ### All insertions -/

theorem applyAll_eq_ok_iff {u : Text} :
    applyAll t es = .ok u ↔ (∀ e ∈ es, Within t e) ∧ u = (ordered es).foldr apply t := by
  constructor
  · intro h
    rw [applyAll] at h
    split at h
    case h_1 => cases h
    case h_2 hnone =>
      refine ⟨fun e he => fits_iff.mp ?_, (Except.ok.inj h).symm⟩
      simpa using List.find?_eq_none.mp hnone e he
  · rintro ⟨hw, rfl⟩
    exact applyAll_of_fits fun e he => fits_iff.mpr (hw e he)

/-- The first insertion that lies outside the text is the one that is named. -/
theorem applyAll_eq_error_iff {x : OutOfRange} :
    applyAll t es = .error x ↔ ∃ before e after, es = before ++ e :: after ∧
      (∀ f ∈ before, Within t f) ∧ ¬ Within t e ∧ x = ⟨e.position, t.length⟩ := by
  have hfind {e : Insertion} : es.find? (fun e => !fits t.length e) = some e ↔
      ∃ before after, es = before ++ e :: after ∧ (∀ f ∈ before, Within t f) ∧ ¬ Within t e := by
    rw [List.find?_eq_some_iff_append]
    simp only [Bool.not_eq_true', Bool.not_not, ← fits_iff, Bool.not_eq_true]
    constructor
    · rintro ⟨he, before, after, rfl, hbefore⟩
      exact ⟨before, after, rfl, hbefore, he⟩
    · rintro ⟨before, after, rfl, hbefore, he⟩
      exact ⟨he, before, after, rfl, hbefore⟩
  constructor
  · intro h
    rw [applyAll] at h
    split at h
    case h_1 e he =>
      obtain ⟨before, after, hes, hbefore, hout⟩ := hfind.mp he
      exact ⟨before, e, after, hes, hbefore, hout, (Except.error.inj h).symm⟩
    case h_2 => cases h
  · rintro ⟨before, e, after, hes, hbefore, hout, rfl⟩
    rw [applyAll, hfind.mpr ⟨before, after, hes, hbefore, hout⟩]

/-- **Insertions against one snapshot of a text.**  They are refused exactly when one lies outside
the text, and the first of those is named.  Otherwise each offset of the text comes out as what is
inserted there, in the order in which it is listed, and the character that was there.  What they make
holds the text still, and insertions at different offsets make the same however they are listed. -/
theorem applyAll_snapshot (t : Text) (es : List Insertion) :
    (∀ x, applyAll t es = .error x ↔ ∃ before e after, es = before ++ e :: after ∧
      (∀ f ∈ before, Within t f) ∧ ¬ Within t e ∧ x = ⟨e.position, t.length⟩) ∧
    (∀ u, applyAll t es = .ok u ↔ (∀ e ∈ es, Within t e) ∧ u = interleaved t es) ∧
    (∀ u, applyAll t es = .ok u → withdrawAll es u = t) ∧
    ∀ es', es.Perm es' → (es.map position).Nodup →
      ∀ u, applyAll t es = .ok u ↔ applyAll t es' = .ok u := by
  have hordered (hw : ∀ e ∈ es, Within t e) : ∀ e ∈ ordered es, Within t e :=
    fun e he => hw e ((ordered_perm es).mem_iff.mp he)
  refine ⟨fun x => applyAll_eq_error_iff, fun u => ?_, fun u hu => ?_,
    fun es' hperm hdistinct u => ?_⟩
  · rw [applyAll_eq_ok_iff]
    refine and_congr_right fun hw => ?_
    rw [foldr_apply (hordered hw) (ordered_pairwise_le es), interleaved_ordered]
  · obtain ⟨hw, rfl⟩ := applyAll_eq_ok_iff.mp hu
    exact foldl_withdraw (hordered hw)
  · rw [applyAll_eq_ok_iff, applyAll_eq_ok_iff, ordered_congr hperm hdistinct]
    exact and_congr_left' (forall_congr' fun e => by rw [hperm.mem_iff])

/-- Insertions listed from the last offset on, two of them at one offset, and then one that lies
behind the end. -/
theorem applyAll_snapshot_abc :
    applyAll "abc".toList [⟨3, ['X']⟩, ⟨1, ['Y']⟩, ⟨1, ['Z']⟩] = .ok "aYZbcX".toList ∧
      withdrawAll [⟨3, ['X']⟩, ⟨1, ['Y']⟩, ⟨1, ['Z']⟩] "aYZbcX".toList = "abc".toList ∧
      applyAll "abc".toList [⟨1, ['Y']⟩, ⟨3, ['X']⟩] = .ok "aYbcX".toList ∧
      applyAll "abc".toList [⟨0, ['X']⟩, ⟨4, ['Y']⟩, ⟨-1, ['Z']⟩] = .error ⟨4, 3⟩ := by
  obtain ⟨-, hok, hwithdrawn, -⟩ :=
    applyAll_snapshot "abc".toList [⟨3, ['X']⟩, ⟨1, ['Y']⟩, ⟨1, ['Z']⟩]
  obtain ⟨-, hpair, -, hperm⟩ := applyAll_snapshot "abc".toList [⟨3, ['X']⟩, ⟨1, ['Y']⟩]
  obtain ⟨herror, -⟩ :=
    applyAll_snapshot "abc".toList [⟨0, ['X']⟩, ⟨4, ['Y']⟩, ⟨-1, ['Z']⟩]
  have hmade := (hok "aYZbcX".toList).mpr ⟨by decide, by decide⟩
  have hmade' := (hpair "aYbcX".toList).mpr ⟨by decide, by decide⟩
  refine ⟨hmade, hwithdrawn _ hmade, ?_, ?_⟩
  · exact (hperm _ (List.Perm.swap _ _ _) (by decide) _).mp hmade'
  · exact (herror ⟨4, 3⟩).mpr ⟨[⟨0, ['X']⟩], ⟨4, ['Y']⟩, [⟨-1, ['Z']⟩], rfl, by decide,
      by decide, rfl⟩

end Graft.Insertion
