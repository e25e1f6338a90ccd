import Graft.Proofs.Staging.Retention
import Graft.Proofs.Workspace.Again

/-
Artifacts written once more.

* `Staged.again` — what becomes of an artifact the second time: nothing is new;
* `StagedFile.Lengthy f` — a file that could not be written for a name that is too long;
* `stage_again` — **where there is none of these, what was written is written again, and what could not be
  written still cannot**;
* `stage_lengthy` — where there is one, artifacts are not staged to the last again;
* `alike_of_stage_again` — where nobody else has written since, the files are left as they were.

Design notes: the writes are told from the files and the locations alone, so both runs are runs of the
same writes, and the last of them decides what is left at a location.
-/
namespace Graft.Staging

open Workspace

variable {sr : Text} {w w' v v' : Workspace}

/-! ### The second time -/

/-- What becomes of a file the second time: if it was written, it is not new. -/
def StagedFile.again (f : StagedFile) : StagedFile :=
  { f with outcome := f.outcome.map fun _ => false }

def Staged.again (s : Staged) : Staged := { s with files := s.files.map StagedFile.again }

@[simp] theorem StagedFile.again_ok (f : StagedFile) : f.again.ok = f.ok := by
  obtain ⟨path, kind, outcome⟩ := f
  cases outcome <;> rfl

@[simp] theorem Staged.again_ok (s : Staged) : s.again.ok = s.ok := by
  simp [Staged.ok, Staged.again, List.all_map, Function.comp_def]

theorem Staged.again_pathOf? (s : Staged) (k : Kind) : s.again.pathOf? k = s.pathOf? k := by
  rw [Staged.pathOf?, Staged.pathOf?, Staged.again, List.find?_map, Option.map_map]
  rfl

theorem written_again (staged : List Staged) :
    written (staged.map Staged.again) = (written staged).map fun f => (f.1, f.2.again) := by
  have heach (s : Staged) : (s.again.files.filter StagedFile.ok).map (s.again.artifact, ·) =
      ((s.files.filter StagedFile.ok).map (s.artifact, ·)).map fun f => (f.1, f.2.again) := by
    have hok : StagedFile.ok ∘ StagedFile.again = StagedFile.ok := funext StagedFile.again_ok
    rw [Staged.again, List.filter_map, List.map_map, List.map_map, hok]
    rfl
  rw [written, List.flatMap_map, written, List.map_flatMap]
  exact congrArg (staged.flatMap ·) (funext heach)

theorem deposits_again (h : v.locate = w.locate) (files : List (Artifact × StagedFile)) :
    deposits v (files.map fun f => (f.1, f.2.again)) = deposits w files := by
  rw [deposits, List.filterMap_map, h]
  rfl

/-! ### Written again -/

/-- A file that could not be written for a name that is too long. -/
def StagedFile.Lengthy (f : StagedFile) : Prop := ∃ e, f.outcome = .error e ∧ e.Lengthy

/-- What was written of a list of files is written again, and what could not be written still cannot. -/
theorem stageFiles_again {files : List (Text × Kind × Text)} {staged : List StagedFile}
    (h : stageFiles sr files w = (.ok staged, w')) (hfits : ∀ f ∈ staged, ¬ f.Lengthy)
    (hlater : Later w' v) :
    ∃ v', stageFiles sr files v = (.ok (staged.map StagedFile.again), v') ∧ Later v v' ∧ Later v' v := by
  induction files generalizing w v staged with
  | nil =>
    rw [stageFiles] at h
    obtain rfl := Except.ok.inj (Prod.mk.inj h).1
    exact ⟨v, rfl, .refl v, .refl v⟩
  | cons f rest ih =>
    obtain ⟨file, k, t⟩ := f
    obtain ⟨outcome, w₁, fs, rfl, hw, hfs⟩ := stageFiles_cons_eq_ok h
    obtain ⟨hfit, hrest⟩ := List.forall_mem_cons.mp hfits
    have hstep := (stageFiles_later hfs).trans hlater
    cases outcome with
    | error e =>
      obtain ⟨hv, rfl⟩ := hstep.write_error hw fun he => hfit ⟨e, rfl, he⟩
      obtain ⟨v', hv', hthere, hback⟩ := ih hfs hrest hlater
      exact ⟨v', stageFiles_cons_of_write (.error e) hv hv', hthere, hback⟩
    | ok new =>
      obtain ⟨v₁, hv₁, hback₁⟩ := hstep.write_ok hw
      have hthere₁ := later_write hv₁
      obtain ⟨v', hv', hthere, hback⟩ := ih hfs hrest (hlater.trans hthere₁)
      exact ⟨v', stageFiles_cons_of_write (.ok false) hv₁ hv', hthere₁.trans hthere,
        hback.trans hback₁⟩

/-- Files are not staged to the last again if the name of one was too long. -/
theorem stageFiles_lengthy {files : List (Text × Kind × Text)} {staged : List StagedFile}
    (h : stageFiles sr files w = (.ok staged, w')) (hlong : ∃ f ∈ staged, f.Lengthy)
    (hlater : Later w' v) :
    ∃ place v', stageFiles sr files v = (.error (.barred ⟨.tooLong, place⟩), v') := by
  induction files generalizing w v staged with
  | nil =>
    rw [stageFiles] at h
    obtain rfl := Except.ok.inj (Prod.mk.inj h).1
    simp at hlong
  | cons f rest ih =>
    obtain ⟨file, k, t⟩ := f
    obtain ⟨outcome, w₁, fs, rfl, hw, hfs⟩ := stageFiles_cons_eq_ok h
    have hstep := (stageFiles_later hfs).trans hlater
    by_cases hhead : ∃ e, outcome = .error e ∧ e.Lengthy
    · obtain ⟨e, rfl, he⟩ := hhead
      obtain ⟨l, -, hv⟩ := hstep.write_lengthy hw he
      refine ⟨l.text, v, ?_⟩
      rw [stageFiles]
      simp only [hv]
    · have hrest : ∃ f ∈ fs, f.Lengthy := by
        obtain ⟨f, hf, hlong⟩ := hlong
        rcases List.mem_cons.mp hf with rfl | hf
        · exact absurd hlong hhead
        · exact ⟨f, hf, hlong⟩
      obtain ⟨outcome', v₁, hv, hv₁⟩ : ∃ (outcome' : Except PathError Bool) (v₁ : Workspace),
          v.write (destination sr file) t = (outcome'.mapError .path, v₁) ∧ Later v v₁ := by
        cases outcome with
        | error e =>
          obtain ⟨hv, -⟩ := hstep.write_error hw fun he => hhead ⟨e, rfl, he⟩
          exact ⟨.error e, v, hv, .refl v⟩
        | ok new =>
          obtain ⟨v₁, hv₁, -⟩ := hstep.write_ok hw
          exact ⟨.ok false, v₁, hv₁, later_write hv₁⟩
      obtain ⟨place, v', hv'⟩ := ih hfs hrest (hlater.trans hv₁)
      refine ⟨place, v', ?_⟩
      rw [stageFiles]
      cases outcome' <;> simp only [hv, hv', Except.mapError] <;> rfl

theorem stage_cons_of_ok {a : Artifact} {rest : List Artifact} {fs : List StagedFile} {w₁ : Workspace}
    {ss : List Staged} (hfiles : stageFiles sr a.files w = (.ok fs, w₁))
    (hrest : stage sr rest w₁ = (.ok ss, w')) :
    stage sr (a :: rest) w = (.ok (⟨a, fs⟩ :: ss), w') := by
  rw [stage, hfiles]
  dsimp only
  rw [hrest]
  rfl

/-- **Where no name was too long, what was written is written again, and what could not be written still
cannot.** -/
theorem stage_again {as : List Artifact} {staged : List Staged}
    (h : stage sr as w = (.ok staged, w')) (hfits : ∀ s ∈ staged, ∀ f ∈ s.files, ¬ f.Lengthy)
    (hlater : Later w' v) :
    ∃ v', stage sr as v = (.ok (staged.map Staged.again), v') ∧ Later v v' ∧ Later v' v := by
  induction as generalizing w v staged with
  | nil =>
    rw [stage] at h
    obtain rfl := Except.ok.inj (Prod.mk.inj h).1
    exact ⟨v, rfl, .refl v, .refl v⟩
  | cons a rest ih =>
    obtain ⟨fs, w₁, ss, rfl, hfs, hrest⟩ := stage_cons_eq_ok h
    obtain ⟨hfit, hothers⟩ := List.forall_mem_cons.mp hfits
    obtain ⟨v₁, hv₁, hthere₁, hback₁⟩ := stageFiles_again hfs hfit ((stage_later hrest).trans hlater)
    obtain ⟨v', hv', hthere, hback⟩ := ih hrest hothers (hlater.trans hthere₁)
    exact ⟨v', stage_cons_of_ok hv₁ hv', hthere₁.trans hthere, hback.trans hback₁⟩

/-- **Where the name of a file was too long, artifacts are not staged to the last again.** -/
theorem stage_lengthy {as : List Artifact} {staged : List Staged}
    (h : stage sr as w = (.ok staged, w')) (hlong : ∃ s ∈ staged, ∃ f ∈ s.files, f.Lengthy)
    (hlater : Later w' v) : ∃ place v', stage sr as v = (.error (.barred ⟨.tooLong, place⟩), v') := by
  induction as generalizing w v staged with
  | nil =>
    rw [stage] at h
    obtain rfl := Except.ok.inj (Prod.mk.inj h).1
    simp at hlong
  | cons a rest ih =>
    obtain ⟨fs, w₁, ss, rfl, hfs, hrest⟩ := stage_cons_eq_ok h
    have hstep := (stage_later hrest).trans hlater
    by_cases hhead : ∃ f ∈ fs, f.Lengthy
    · obtain ⟨place, v', hv⟩ := stageFiles_lengthy hfs hhead hstep
      refine ⟨place, v', ?_⟩
      rw [stage, hv]
    · have hlong' : ∃ s ∈ ss, ∃ f ∈ s.files, f.Lengthy := by
        obtain ⟨s, hs, hlong⟩ := hlong
        rcases List.mem_cons.mp hs with rfl | hs
        · exact absurd hlong hhead
        · exact ⟨s, hs, hlong⟩
      have hfit : ∀ f ∈ fs, ¬ f.Lengthy := fun f hf hlong => hhead ⟨f, hf, hlong⟩
      obtain ⟨v₁, hv₁, hthere₁, -⟩ := stageFiles_again hfs hfit hstep
      obtain ⟨place, v', hv⟩ := ih hrest hlong' (hlater.trans hthere₁)
      refine ⟨place, v', ?_⟩
      rw [stage, hv₁]
      dsimp only
      rw [hv]
      rfl

/-- Where nobody else has written to these files since, they are left as they were. -/
theorem alike_of_stage_again {as : List Artifact} {staged : List Staged}
    (h : stage sr as w = (.ok staged, w')) (hlater : Later w' v)
    (hsame : ∀ f ∈ written staged, ∀ l, w.locate f.2.path = .ok l → v.held l = w'.held l)
    (hv : stage sr as v = (.ok (staged.map Staged.again), v')) (hback : Later v' v) : Alike v v' := by
  have hrun := (stage_writes h).writes
  have hrun' := (stage_writes hv).writes
  have hlocate : v.locate = w.locate := funext (hrun.later.trans hlater).locate_eq
  rw [written_again, deposits_again hlocate] at hrun'
  refine ⟨hrun'.later, hback, fun l => ?_⟩
  rw [hrun'.held_eq]
  cases hlatest : latest l (deposits w (written staged)) with
  | none => rfl
  | some t =>
    obtain ⟨f, hf, hl, -⟩ := mem_deposits.mp (mem_of_latest hlatest)
    rw [hsame f hf l hl, hrun.held_eq, hlatest]
    rfl

end Graft.Staging

