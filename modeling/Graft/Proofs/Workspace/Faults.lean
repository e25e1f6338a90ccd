import Graft.Proofs.Artifact.FilePath
import Graft.Proofs.Workspace.Writing

/-
The paths that no workspace can look up.

* `Nulled p` — a path that holds a NUL and is not absolute;
* `locateFrom_fault_iff` — **such a path, and no other, has neither a location nor a refusal**;
* `Barred w p f` — a path that cannot be looked up: it is one of these, or its location cannot be
  reached;
* `exists?_fault_iff`, `write_fault_iff` — **asking for a file, and writing one, has a fault exactly for a
  path that cannot be looked up**;
* `read_fault_iff` — reading has one for a NUL alone.

Design notes: an absolute path is refused before it is looked up, so a NUL does no harm in it.
-/
namespace Graft

open Graft.Path

/-- A path with a character that is neither a slash nor a dot names something. -/
theorem Path.named_ne_nil {t : Text} {c : Char} (hc : c ∈ t) (hslash : c ≠ '/') (hdot : c ≠ '.') :
    named t ≠ [] := by
  rw [← join_split t] at hc
  obtain ⟨s, hs, hin⟩ := (mem_join hc).resolve_left hslash
  refine List.ne_nil_of_mem (List.mem_filter.mpr ⟨hs, ?_⟩)
  have hhere : s ≠ here := by
    rintro rfl
    exact hdot (List.mem_singleton.mp hin)
  simp [List.ne_nil_of_mem hin, hhere]

namespace Workspace

variable {w : Workspace} {root : Location} {p t : Text} {f : Fault}

/-- A path that holds a NUL and is not absolute. -/
def Nulled (p : Text) : Prop := '\x00' ∈ p ∧ (forward p).head? ≠ some '/'

instance (p : Text) : Decidable (Nulled p) := inferInstanceAs (Decidable (_ ∧ _))

/-- **A path has neither a location nor a refusal exactly when it is relative and holds a NUL.** -/
theorem locateFrom_fault_iff : locateFrom root p = .error (.fault f) ↔ Nulled p ∧ f = .nul := by
  unfold locateFrom
  dsimp only
  by_cases hhead : (forward p).head? = some '/'
  · simp [hhead, Nulled, fail]
  · by_cases hnul : '\x00' ∈ p
    · have hforward : '\x00' ∈ forward p := List.mem_map.mpr ⟨_, hnul, rfl⟩
      have hnamed : named (forward p) ≠ [] := named_ne_nil hforward (by decide) (by decide)
      have hpoint : Nulled p := ⟨hnul, hhead⟩
      rw [if_neg (by simp [hhead, hnamed]), if_pos (by simpa using hnul)]
      exact ⟨fun h => ⟨hpoint, (Error.fault.inj (Except.error.inj h)).symm⟩, fun h => by rw [h.2]⟩
    · have hquiet : ¬ Nulled p := fun h => hnul h.1
      by_cases hnamed : named (forward p) = []
      · simp [hnamed, hquiet, fail]
      · by_cases hin : root.isPrefixOf (Path.locate root (forward p)) = true
        · simp [hhead, hnamed, hnul, hin, hquiet]
        · simp [hhead, hnamed, hnul, hin, hquiet, fail]

theorem locate_fault_iff : w.locate p = .error (.fault f) ↔ Nulled p ∧ f = .nul :=
  locateFrom_fault_iff

/-- What a path that cannot be looked up comes to. -/
def Barred (w : Workspace) (p : Text) (f : Fault) : Prop :=
  (Nulled p ∧ f = .nul) ∨
    ∃ l o, w.locate p = .ok l ∧ w.barrier? l = some o ∧ f = .barred ⟨o, l.text⟩

theorem exists?_fault_iff : w.exists? p = .error f ↔ Barred w p f := by
  rw [Barred, ← locate_fault_iff (w := w), exists?]
  cases w.locate p with
  | error e => cases e <;> simp
  | ok l => cases hmet : w.barrier? l <;> simp [hmet, eq_comm]

theorem read_fault_iff : w.read p = .error (.fault f) ↔ Nulled p ∧ f = .nul := by
  rw [← locate_fault_iff (w := w), read]
  cases w.locate p with
  | error e => cases e <;> simp [bind, Except.bind]
  | ok l =>
    -- What stands at a location is read, or told off as a path.
    cases hc : (w.barrier? l).elim (w.disk.contents l) .error with
    | error o => simp [bind, Except.bind, hc, fail]
    | ok octets => cases hd : Utf8.decode octets <;> simp [bind, Except.bind, hc, hd, fail]

theorem write_fault_iff : (w.write p t).1 = .error (.fault f) ↔ Barred w p f := by
  rw [Barred, ← locate_fault_iff (w := w)]
  have hw := written w p t
  generalize w.write p t = r at hw ⊢
  cases hw with
  | refused refused => simp [refused]
  | unreached at_ met => simp [at_, met, eq_comm]
  | barred at_ reached bars => simp [at_, reached, fail]
  | cut at_ reached way long free met => simp [at_, reached, fail]
  | wrote at_ wrote => simp [at_, wrote.reached]


end Workspace
end Graft
