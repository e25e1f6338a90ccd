import Graft.Proofs.Artifact.Stem
import Graft.Proofs.Staging.Retention
import Graft.Proofs.Workspace.Faults

/-
Staging that ends early.

* `Halts sr files w f` — a destination that cannot be looked up when its turn comes;
* `stageFiles_fault_iff`, `stage_fault_iff` — **files are staged to the last, and each failure is recorded,
  unless a destination cannot be looked up when its turn comes**.

Design notes: what was written before a file may be on the way to it, so whether it can be looked up is
asked of the workspace that the files before it have left.
-/
namespace Graft.Staging

open Graft.Path Workspace

variable {w : Workspace} {sr : Text} {f : Fault} {files : List (Text × Kind × Text)}

/-- A destination that cannot be looked up once the files before it are staged. -/
def Halts (sr : Text) (files : List (Text × Kind × Text)) (w : Workspace) (f : Fault) : Prop :=
  ∃ before g rest done v, files = before ++ g :: rest ∧ stageFiles sr before w = (.ok done, v) ∧
    Barred v (destination sr g.1) f

theorem map_eq_error_iff {ε α β : Type} {g : α → β} {x : Except ε α} {e : ε} :
    x.map g = .error e ↔ x = .error e := by
  cases x <;> simp [Except.map]

/-- A list of files halts at its first one, or else where the rest does. -/
theorem halts_cons_iff {file t : Text} {k : Kind} {v : Workspace} (outcome : Except PathError Bool)
    (hw : w.write (destination sr file) t = (outcome.mapError .path, v)) :
    Halts sr ((file, k, t) :: files) w f ↔ Halts sr files v f := by
  have hreached : ¬ Barred w (destination sr file) f := fun h => by
    have hfault := (write_fault_iff (t := t)).mpr h
    rw [hw] at hfault
    cases outcome <;> cases hfault
  constructor
  · rintro ⟨before, g, rest, done, u, hfiles, hstaged, hbarred⟩
    cases before with
    | nil =>
      obtain ⟨rfl, -⟩ := List.cons.inj hfiles
      rw [stageFiles] at hstaged
      obtain ⟨-, rfl⟩ := Prod.mk.inj hstaged
      exact absurd hbarred hreached
    | cons g' before =>
      obtain ⟨rfl, rfl⟩ := List.cons.inj hfiles
      obtain ⟨outcome', u', fs, rfl, hw', hfs⟩ := stageFiles_cons_eq_ok hstaged
      obtain ⟨-, rfl⟩ := Prod.mk.inj (hw.symm.trans hw')
      exact ⟨before, g, rest, fs, u, rfl, hfs, hbarred⟩
  · rintro ⟨before, g, rest, done, u, rfl, hstaged, hbarred⟩
    exact ⟨(file, k, t) :: before, g, rest, _, u, rfl, stageFiles_cons_of_write outcome hw hstaged, hbarred⟩

/-- **Files are staged to the last, and each failure is recorded, unless a destination cannot be looked up
when its turn comes.** -/
theorem stageFiles_fault_iff : (stageFiles sr files w).1 = .error f ↔ Halts sr files w f := by
  induction files generalizing w with
  | nil => simp [stageFiles, Halts]
  | cons g rest ih =>
    obtain ⟨file, k, t⟩ := g
    cases hw : w.write (destination sr file) t with
    | mk r v =>
      cases r with
      | ok new =>
        rw [halts_cons_iff (.ok new) hw, ← ih, stageFiles]
        simp only [hw]
        exact map_eq_error_iff
      | error e =>
        cases e with
        | path e =>
          rw [halts_cons_iff (.error e) hw, ← ih, stageFiles]
          simp only [hw]
          exact map_eq_error_iff
        | fault f' =>
          have hbarred (f : Fault) : Barred w (destination sr file) f ↔ f = f' := by
            rw [← write_fault_iff (t := t), hw]
            exact ⟨fun h => (Error.fault.inj (Except.error.inj h)).symm, fun h => by rw [h]⟩
          rw [stageFiles]
          simp only [hw]
          constructor
          · intro h
            exact ⟨[], (file, k, t), rest, [], w, rfl, rfl, (hbarred f).mpr (Except.error.inj h).symm⟩
          · rintro ⟨before, g, rest', done, u, hfiles, hstaged, h⟩
            cases before with
            | nil =>
              obtain ⟨rfl, -⟩ := List.cons.inj hfiles
              rw [stageFiles] at hstaged
              obtain ⟨-, rfl⟩ := Prod.mk.inj hstaged
              rw [(hbarred f).mp h]
            | cons g' before =>
              obtain ⟨rfl, -⟩ := List.cons.inj hfiles
              obtain ⟨outcome, u', fs, -, hw', -⟩ := stageFiles_cons_eq_ok hstaged
              rw [hw] at hw'
              cases outcome <;> cases (Prod.mk.inj hw').1

/-! ### Artifacts -/

theorem stageFiles_append {more : List (Text × Kind × Text)} {done : List StagedFile} {v : Workspace}
    (h : stageFiles sr files w = (.ok done, v)) : stageFiles sr (files ++ more) w =
      ((stageFiles sr more v).1.map (done ++ ·), (stageFiles sr more v).2) := by
  induction files generalizing w done with
  | nil =>
    rw [stageFiles] at h
    obtain ⟨hdone, rfl⟩ := Prod.mk.inj h
    obtain rfl := Except.ok.inj hdone
    cases hmore : (stageFiles sr more w).1 <;> simp [Except.map, ← hmore]
  | cons g rest ih =>
    obtain ⟨file, k, t⟩ := g
    obtain ⟨outcome, u, fs, rfl, hw, hfs⟩ := stageFiles_cons_eq_ok h
    rw [List.cons_append, stageFiles]
    cases outcome <;> simp only [hw, ih hfs, Except.mapError] <;>
      cases (stageFiles sr more v).1 <;> rfl

/-- Artifacts are staged to the last exactly when all their files are, one after another. -/
theorem stage_error_iff {as : List Artifact} :
    (stage sr as w).1 = .error f ↔ (stageFiles sr (as.flatMap Artifact.files) w).1 = .error f := by
  induction as generalizing w with
  | nil => simp [stage, stageFiles]
  | cons a rest ih =>
    rw [stage, List.flatMap_cons]
    cases hfiles : stageFiles sr a.files w with
    | mk r v =>
      cases r with
      | ok done =>
        rw [stageFiles_append hfiles]
        dsimp only
        rw [map_eq_error_iff, map_eq_error_iff, ih]
      | error f' =>
        have hhalts : Halts sr (a.files ++ rest.flatMap Artifact.files) w f' := by
          obtain ⟨before, g, after, done, u, hsplit, hdone, hbarred⟩ :=
            stageFiles_fault_iff.mp (congrArg Prod.fst hfiles)
          exact ⟨before, g, after ++ rest.flatMap Artifact.files, done, u,
            by rw [hsplit, List.append_assoc, List.cons_append], hdone, hbarred⟩
        rw [stageFiles_fault_iff.mpr hhalts]
        simp

/-- **Artifacts are staged to the last, unless a destination cannot be looked up when its turn comes.** -/
theorem stage_fault_iff {as : List Artifact} :
    (stage sr as w).1 = .error f ↔ Halts sr (as.flatMap Artifact.files) w f := by
  rw [stage_error_iff, stageFiles_fault_iff]


end Graft.Staging

