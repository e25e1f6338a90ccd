import Graft.Proofs.Workspace.Addressing

/-
The spellings of a location.

* `Workspace.segments p` — a spelling with its slashes turned and its empty and `.` segments dropped;
* `Location.walk l ss` — the place that segments lead to, `..` upwards;
* `Workspace.Refused root p` — what no workspace takes as a path of its own;
* `locate_eq_walk` — collapsing a path on a stack is walking it segment by segment;
* `locateFrom_eq_ok_iff` — **a spelling that is not refused has the location that it walks to, and the
  others have none**;
* `locateFrom_same_iff` — two spellings in use have one location when they walk to one place.

Design notes: walking says where a spelling leads without a stack and without the root having to be
spelled out in front of it.  No segment of a root is `..`, and walking never makes one.
-/
namespace Graft

open Graft.Path

/-- The place that segments lead to from a place, `..` upwards; above the top there is only the top. -/
def Location.walk (l : Location) : List Text → Location
  | [] => l
  | s :: ss => walk (if s = above then l.parent else l ++ [s]) ss

namespace Path

/-- Collapsing segments onto a stack without `..` is walking them from the place it stands for. -/
theorem foldl_push_eq_walk (ss : List Text) {l : Location} (h : above ∉ l) :
    (ss.foldl (push true) l.reverse).reverse = l.walk (ss.filter isNamed) := by
  induction ss generalizing l with
  | nil => exact List.reverse_reverse l
  | cons s ss ih =>
    by_cases hs : s = above
    · subst hs
      have hpush : push true l.reverse above = (Location.parent l).reverse := by
        obtain rfl | ⟨p, top, rfl⟩ := l.eq_nil_or_concat
        · rfl
        · have htop : top ≠ above := fun ht => h (by simp [ht])
          rw [Location.parent, List.concat_eq_append, List.reverse_concat, push_above_cons, if_neg htop,
            List.dropLast_concat]
      have hup : above ∉ Location.parent l := fun hin => h ((List.dropLast_sublist l).subset hin)
      rw [List.foldl_cons, hpush, ih hup, List.filter_cons, if_pos (by decide), Location.walk, if_pos rfl]
    · rw [List.foldl_cons, push_of_not_above hs, List.filter_cons]
      by_cases hnamed : isNamed s = true
      · have hdown : above ∉ l ++ [s] := by
          rw [List.mem_append, List.mem_singleton, not_or]
          exact ⟨h, Ne.symm hs⟩
        rw [if_pos hnamed, if_pos hnamed, Location.walk, if_neg hs, ← ih hdown, List.reverse_concat]
      · rw [if_neg hnamed, if_neg hnamed, ih h]

/-- Collapsing a path on a stack is walking it segment by segment. -/
theorem locate_eq_walk {root : Location} (hroot : root.Resolved) {p : Text} (h : p.head? ≠ some '/') :
    locate root p = root.walk (named p) := by
  have habove : above ∉ root := above_not_mem hroot
  rw [locate_relative root h, collapse, List.foldl_append, foldl_push (above_not_mem hroot),
    filter_isNamed hroot, List.append_nil, foldl_push_eq_walk _ habove, named_eq]

end Path

namespace Workspace

variable {root l : Location} {p q : Text}

/-- A spelling with its backslashes turned and its empty and `.` segments dropped. -/
def segments (p : Text) : List Text := named (forward p)

/-- What no workspace takes as a path of its own: an absolute path, one without segments, and one that
leads to neither the root nor a place below it. -/
def Refused (root : Location) (p : Text) : Prop :=
  (forward p).head? = some '/' ∨ segments p = [] ∨ ¬ root <+: root.walk (segments p)

instance (root : Location) (p : Text) : Decidable (Refused root p) :=
  inferInstanceAs (Decidable (_ ∨ _ ∨ _))

/-- **A spelling that is not refused has the location that it walks to, and the others have none.** -/
theorem locateFrom_eq_ok_iff (hroot : root.Resolved) (hnul : '\x00' ∉ p) :
    locateFrom root p = .ok l ↔ ¬ Refused root p ∧ root.walk (segments p) = l := by
  unfold locateFrom
  dsimp only
  by_cases hrelative : ((forward p).head? = some '/' || (named (forward p)).isEmpty) = true
  · rw [if_pos hrelative]
    refine ⟨fun h => (by cases h), fun h => absurd ?_ h.1⟩
    rw [Bool.or_eq_true, decide_eq_true_eq, List.isEmpty_iff] at hrelative
    exact hrelative.imp_right Or.inl
  · rw [if_neg hrelative, if_neg (by simpa using hnul)]
    rw [Bool.or_eq_true, decide_eq_true_eq, List.isEmpty_iff, not_or] at hrelative
    rw [locate_eq_walk hroot hrelative.1]
    by_cases hin : root.isPrefixOf (root.walk (named (forward p))) = true
    · have hprefix : root <+: root.walk (segments p) := List.isPrefixOf_iff_prefix.mp hin
      have htaken : ¬ Refused root p := by
        rw [Refused, not_or, not_or, not_not]
        exact ⟨hrelative.1, hrelative.2, hprefix⟩
      rw [if_pos hin]
      exact ⟨fun h => ⟨htaken, Except.ok.inj h⟩, fun h => congrArg _ h.2⟩
    · rw [if_neg hin]
      refine ⟨fun h => (by cases h), fun h => absurd (Or.inr (Or.inr ?_)) h.1⟩
      exact fun hprefix => hin (List.isPrefixOf_iff_prefix.mpr hprefix)

/-- A spelling that is refused is told off as a path. -/
theorem exists_pathError (hnul : '\x00' ∉ p) {e : Error} (h : locateFrom root p = .error e) :
    ∃ problem, e = .path ⟨p, problem⟩ := by
  unfold locateFrom at h
  dsimp only at h
  split at h
  · exact ⟨_, (Except.error.inj h).symm⟩
  · rw [if_neg (by simpa using hnul)] at h
    split at h
    · cases h
    · exact ⟨_, (Except.error.inj h).symm⟩

/-- A spelling has no location exactly when it is refused. -/
theorem locateFrom_error_iff (hroot : root.Resolved) (hnul : '\x00' ∉ p) :
    (∃ problem, locateFrom root p = .error (.path ⟨p, problem⟩)) ↔ Refused root p := by
  constructor
  · rintro ⟨problem, he⟩
    by_contra hno
    rw [(locateFrom_eq_ok_iff hroot hnul).mpr ⟨hno, rfl⟩] at he
    cases he
  · intro hrefused
    cases h : locateFrom root p with
    | error e =>
      obtain ⟨problem, rfl⟩ := exists_pathError hnul h
      exact ⟨problem, rfl⟩
    | ok l => exact absurd hrefused ((locateFrom_eq_ok_iff hroot hnul).mp h).1

/-- Two spellings in use have one location when they walk to one place. -/
theorem locateFrom_same_iff (hroot : root.Resolved) (hp : '\x00' ∉ p) (hq : '\x00' ∉ q)
    (htaken : ¬ Refused root p) (htaken' : ¬ Refused root q) :
    locateFrom root p = locateFrom root q ↔ root.walk (segments p) = root.walk (segments q) := by
  have hlocated := (locateFrom_eq_ok_iff hroot hp).mpr ⟨htaken, rfl⟩
  have hlocated' := (locateFrom_eq_ok_iff hroot hq).mpr ⟨htaken', rfl⟩
  rw [hlocated, hlocated']
  exact ⟨Except.ok.inj, congrArg _⟩

end Workspace
end Graft
