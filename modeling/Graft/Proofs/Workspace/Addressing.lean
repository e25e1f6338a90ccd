import Graft.Proofs.Artifact.FilePath
import Graft.Workspace

/-
The locations that paths address.

* `Location.Resolved l` — a location made of names, as the root of a workspace is;
* `Location.Below dir l` — a location strictly below a directory;
* `locate_relative` — the location that a relative path names;
* `locate_append_slash` — names lead downwards from wherever a path leads;
* `locateFrom_eq_ok` — **a path that does not lead upwards is addressed below the root**.
-/
namespace Graft

open Graft.Path

/-- A location made of names. -/
def Location.Resolved (l : Location) : Prop := ∀ s ∈ l, IsName s

/-- A location strictly below a directory. -/
def Location.Below (dir l : Location) : Prop := ∃ s ss, l = dir ++ s :: ss

namespace Path

theorem named_eq (t : Text) : named t = (split t).filter isNamed := rfl

theorem locate_relative (base : List Text) {t : Text} (h : t.head? ≠ some '/') :
    locate base t = collapse true (base ++ split t) := by
  unfold locate
  split
  · exact absurd rfl h
  · rfl

/-- A path without `..` leads downwards. -/
theorem locate_of_not_above {base : Location} (hbase : base.Resolved) {t : Text}
    (h : t.head? ≠ some '/') (hup : above ∉ split t) : locate base t = base ++ named t := by
  rw [locate_relative base h, collapse_append hup, collapse_names hbase, named_eq]

theorem IsClean.named_eq_split {p : Text} (h : IsClean p) : named p = split p :=
  filter_isNamed h.names

theorem IsClean.not_above {p : Text} (h : IsClean p) : above ∉ split p := above_not_mem h.names

/-- Names lead downwards from wherever a path leads. -/
theorem locate_append_slash (base : List Text) {a b : Text} (ha : a ≠ [])
    (hb : ∀ s ∈ split b, IsName s) : locate base (a ++ '/' :: b) = locate base a ++ split b := by
  by_cases hhead : a.head? = some '/'
  · -- An absolute path is not seen from the base.
    obtain ⟨cs, rfl⟩ := List.head?_eq_some_iff.mp hhead
    change collapse true (split ('/' :: cs ++ '/' :: b)) = collapse true (split ('/' :: cs)) ++ split b
    rw [split_append_slash, collapse_append_names hb]
  · have hhead' : (a ++ '/' :: b).head? ≠ some '/' := by
      rw [List.head?_append_of_ne_nil _ ha]
      exact hhead
    rw [locate_relative base hhead', locate_relative base hhead, split_append_slash,
      ← List.append_assoc, collapse_append_names hb]

end Path

namespace Workspace

theorem eq_locate_of_locateFrom {root l : Location} {p : Text} (h : locateFrom root p = .ok l) :
    l = Path.locate root (forward p) := by
  unfold locateFrom at h
  dsimp only at h
  split at h
  · cases h
  · split at h
    · cases h
    · split at h
      · exact (Except.ok.inj h).symm
      · cases h

/-- No two clean paths have one location. -/
theorem eq_of_locateFrom {root l : Location} (hroot : root.Resolved) {p q : Text} (hp : IsClean p)
    (hq : IsClean q) (h : locateFrom root p = .ok l) (h' : locateFrom root q = .ok l) : p = q := by
  have hbelow {p : Text} (hp : IsClean p) : Path.locate root (forward p) = root ++ split p := by
    rw [forward_eq_self hp.noBackslash, locate_of_not_above hroot hp.head_ne_slash hp.not_above,
      hp.named_eq_split]
  have hsame := (eq_locate_of_locateFrom h).symm.trans (eq_locate_of_locateFrom h')
  rw [hbelow hp, hbelow hq] at hsame
  rw [← join_split p, List.append_cancel_left hsame, join_split]

/-- **A path that does not lead upwards is addressed below the root.** -/
theorem locateFrom_eq_ok {root : Location} (hroot : root.Resolved) {p : Text}
    (hhead : p.head? ≠ some '/') (hback : '\\' ∉ p) (hnul : '\x00' ∉ p) (hup : above ∉ split p)
    (hnamed : named p ≠ []) : locateFrom root p = .ok (root ++ named p) := by
  have hrelative : ¬ (decide (p.head? = some '/') || (named p).isEmpty) = true := by
    rw [Bool.or_eq_true, decide_eq_true_eq, List.isEmpty_iff, not_or]
    exact ⟨hhead, hnamed⟩
  have hbelow : root.isPrefixOf (root ++ named p) = true :=
    List.isPrefixOf_iff_prefix.mpr (List.prefix_append root _)
  unfold locateFrom
  dsimp only
  rw [forward_eq_self hback, if_neg hrelative, if_neg (by simpa using hnul),
    locate_of_not_above hroot hhead hup, if_pos hbelow]

/-- A workspace without files. -/
def vacant : Workspace := { root := ["ws".toList], disk := Tree.empty }

theorem vacant_resolved : vacant.root.Resolved := by
  intro s hs
  rw [List.mem_singleton.mp hs]
  decide

end Workspace
end Graft
