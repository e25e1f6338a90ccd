import Graft.Proofs.Staging.Containment

/-
Files that have one destination.

* `destination_cases` — a file within the source root stays, any other goes into the application
  directory;
* `destination_of_locateFrom` — **no two destinations of clean files have one location**;
* `marks_destination`, `kind_of_destination` — files of one destination are of one kind.

Design notes: the source root may be any text here.  As soon as one of two files is within it, it is made
of names, and both destinations are clean paths; else both files are moved alike.
-/
namespace Graft.Staging

open Graft.Path

variable {root l : Location} {sr p q : Text}

/-- The application directory of a source root. -/
def application (sr : Text) : Text := joined [bare sr, appDirectory]

/-- A path that is the source root, or begins with it. -/
def Within (sr p : Text) : Prop := bare sr ≠ [] ∧ (p = bare sr ∨ ∃ rest, p = bare sr ++ '/' :: rest)

theorem application_ne_nil (sr : Text) : application sr ≠ [] := by
  rw [application]
  by_cases h : bare sr = []
  · rw [h]
    decide
  · rw [joined_app h]
    exact List.append_ne_nil_of_left_ne_nil h _

/-- A file within the source root stays, any other goes into the application directory. -/
theorem destination_cases (sr : Text) (hp : p ≠ []) :
    (Within sr p ∧ destination sr p = p) ∨ destination sr p = application sr ++ '/' :: p := by
  unfold destination
  dsimp only
  split
  next h =>
    refine Or.inl ⟨?_, rfl⟩
    rw [Bool.and_eq_true, Bool.or_eq_true, beq_iff_eq, Text.after?_isSome_iff] at h
    obtain ⟨hne, h⟩ := h
    refine ⟨by simpa using hne, h.imp_right ?_⟩
    rintro ⟨rest, rfl⟩
    exact ⟨rest, by rw [List.append_assoc]; rfl⟩
  next => exact Or.inr (joined_file (bare sr) hp)

/-- Where some clean file is within the source root, all destinations are clean. -/
theorem Within.isClean_destination (h : Within sr p) (hp : IsClean p) (hq : IsClean q) :
    IsClean (destination sr q) := by
  have hroot : IsClean (bare sr) := by
    rcases h.2 with he | ⟨rest, he⟩
    · exact he ▸ hp
    · exact (he ▸ hp : IsClean (bare sr ++ '/' :: rest)).of_append_slash
  have happ : IsClean appDirectory := ⟨by decide, by decide⟩
  rcases destination_cases sr hq.ne_nil with ⟨-, hkept⟩ | hmoved
  · rwa [hkept]
  · rw [hmoved, application, joined_app h.1]
    exact (hroot.append_slash happ).append_slash hq

/-- **No two destinations of clean files have one location.** -/
theorem destination_of_locateFrom (hroot : root.Resolved) (hp : IsClean p) (hq : IsClean q)
    (h : Workspace.locateFrom root (destination sr p) = .ok l)
    (h' : Workspace.locateFrom root (destination sr q) = .ok l) :
    destination sr p = destination sr q := by
  rcases destination_cases sr hp.ne_nil with ⟨hin, -⟩ | hmoved
  · exact Workspace.eq_of_locateFrom hroot (hin.isClean_destination hp hp)
      (hin.isClean_destination hp hq) h h'
  · rcases destination_cases sr hq.ne_nil with ⟨hin, -⟩ | hmoved'
    · exact Workspace.eq_of_locateFrom hroot (hin.isClean_destination hq hp)
        (hin.isClean_destination hq hq) h h'
    · -- Both files are moved, and lie below the application directory as they are named.
      have hplace {p : Text} (hp : IsClean p) :
          locate root (forward (application sr ++ '/' :: p)) =
            locate root (forward (application sr)) ++ split p := by
        have hne : forward (application sr) ≠ [] := by
          simpa [forward] using application_ne_nil sr
        have hforward : forward (application sr ++ '/' :: p) = forward (application sr) ++ '/' :: p := by
          rw [forward, List.map_append, List.map_cons, ← forward, ← forward,
            forward_eq_self hp.noBackslash]
          rfl
        rw [hforward, locate_append_slash root hne hp.names]
      rw [hmoved] at h
      rw [hmoved'] at h'
      have hsame := (Workspace.eq_locate_of_locateFrom h).symm.trans
        (Workspace.eq_locate_of_locateFrom h')
      rw [hplace hp, hplace hq] at hsame
      rw [hmoved, hmoved', ← join_split p, List.append_cancel_left hsame, join_split]

/-! ### Kinds -/

/-- A destination ends in the extension that the file ends in. -/
theorem marks_destination (sr : Text) {k : Kind} (hp : p ≠ []) (h : k.Marks p) : k.Marks (destination sr p) := by
  rcases destination_cases sr hp with ⟨-, hkept⟩ | hmoved
  · rwa [hkept]
  · rw [hmoved, ← List.singleton_append, ← List.append_assoc]
    exact h.append _

/-- Files of one destination are of one kind. -/
theorem kind_of_destination {a b : Artifact} {k j : Kind} (ha : IsClean a.path) (hb : IsClean b.path)
    (h : destination sr (a.filePath k) = destination sr (b.filePath j)) : k = j := by
  have hk := marks_destination sr (Artifact.isClean_pathFor ha k).ne_nil
    (Artifact.marks_pathFor a.path k)
  have hj := marks_destination sr (Artifact.isClean_pathFor hb j).ne_nil
    (Artifact.marks_pathFor b.path j)
  exact hk.unique (h ▸ hj)

end Graft.Staging
