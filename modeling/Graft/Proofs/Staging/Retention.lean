import Graft.Proofs.Response.Merging
import Graft.Proofs.Staging.Destinations
import Graft.Proofs.Workspace.Store
import Mathlib.Data.List.Pairwise

/-
What is left of the artifacts of a response once all of them are written.

* `written staged` — the files that were written, with their artifacts;
* `stageFiles_cons_eq_ok`, `stage_cons_eq_ok` — what staging one file, and one artifact, comes to;
* `stage_artifacts`, `written_distinct` — what is staged are the files of the artifacts, each once;
* `deposits w written` — the texts of these, with the locations they were written to;
* `IsRun w written w'`, `stage_writes` — staging is a run of the writes of these;
* `Kept`, `Agreeing`, `Apart` — every file written is read back; files at one location have one text;
  no two files are at one location;
* `Homonymous sr f g` — files of two artifacts, of one kind, that have one destination;
* `stage_kept_iff` — **all files written are read back, each from a location of its own, exactly when no
  two of them are homonymous.**

Design notes: the paths of artifacts are all different, those of their files need not be.  A file takes
the extension of its kind where its path has none, and a path below the source root is not moved into
the application directory, where another file may go.
-/
namespace Graft.Staging

open Workspace

variable {sr : Text} {w w' : Workspace}

/-- The files of artifacts that were written. -/
def written (staged : List Staged) : List (Artifact × StagedFile) :=
  staged.flatMap fun s => (s.files.filter StagedFile.ok).map (s.artifact, ·)

/-! ### One file, and one artifact -/

/-- The first of several files is written or refused, and the rest is staged in the workspace that is
left. -/
theorem stageFiles_cons_eq_ok {file t : Text} {k : Kind} {rest : List (Text × Kind × Text)}
    {staged : List StagedFile} (h : stageFiles sr ((file, k, t) :: rest) w = (.ok staged, w')) :
    ∃ outcome w₁ fs, staged = ⟨destination sr file, k, outcome⟩ :: fs ∧
      w.write (destination sr file) t = (outcome.mapError .path, w₁) ∧
      stageFiles sr rest w₁ = (.ok fs, w') := by
  rw [stageFiles] at h
  dsimp only at h
  have hrest {w₁ : Workspace} {outcome : Except PathError Bool}
      (h : ((stageFiles sr rest w₁).1.map (⟨destination sr file, k, outcome⟩ :: ·),
        (stageFiles sr rest w₁).2) = (.ok staged, w')) :
      ∃ fs, staged = ⟨destination sr file, k, outcome⟩ :: fs ∧
        stageFiles sr rest w₁ = (.ok fs, w') := by
    obtain ⟨hs, hw'⟩ := Prod.mk.inj h
    cases hr : (stageFiles sr rest w₁).1 with
    | error e =>
      rw [hr] at hs
      cases hs
    | ok fs =>
      rw [hr] at hs
      exact ⟨fs, (Except.ok.inj hs).symm, Prod.ext hr hw'⟩
  cases hw : w.write (destination sr file) t with
  | mk r w₁ =>
    rw [hw] at h
    cases r with
    | ok new =>
      obtain ⟨fs, hstaged, hfs⟩ := hrest h
      exact ⟨.ok new, w₁, fs, hstaged, rfl, hfs⟩
    | error e =>
      cases e with
      | fault e => cases (Prod.mk.inj h).1
      | path e =>
        obtain ⟨fs, hstaged, hfs⟩ := hrest h
        exact ⟨.error e, w₁, fs, hstaged, rfl, hfs⟩

theorem stageFiles_cons_of_write {file t : Text} {k : Kind} {rest : List (Text × Kind × Text)}
    {w₁ : Workspace} {fs : List StagedFile} (outcome : Except PathError Bool)
    (hw : w.write (destination sr file) t = (outcome.mapError .path, w₁))
    (h : stageFiles sr rest w₁ = (.ok fs, w')) :
    stageFiles sr ((file, k, t) :: rest) w = (.ok (⟨destination sr file, k, outcome⟩ :: fs), w') := by
  rw [stageFiles]
  cases outcome <;> simp only [hw, h, Except.mapError] <;> rfl

theorem stage_cons_eq_ok {a : Artifact} {rest : List Artifact} {staged : List Staged}
    (h : stage sr (a :: rest) w = (.ok staged, w')) :
    ∃ fs w₁ ss, staged = ⟨a, fs⟩ :: ss ∧ stageFiles sr a.files w = (.ok fs, w₁) ∧
      stage sr rest w₁ = (.ok ss, w') := by
  rw [stage] at h
  cases hfiles : stageFiles sr a.files w with
  | mk r w₁ =>
    rw [hfiles] at h
    cases r with
    | error e => cases (Prod.mk.inj h).1
    | ok fs =>
      obtain ⟨hs, hw'⟩ := Prod.mk.inj h
      cases hr : (stage sr rest w₁).1 with
      | error e =>
        rw [hr] at hs
        cases hs
      | ok ss =>
        rw [hr] at hs
        exact ⟨fs, w₁, ss, (Except.ok.inj hs).symm, rfl, Prod.ext hr hw'⟩

/-! ### What is staged -/

theorem stageFiles_paths {files : List (Text × Kind × Text)} {staged : List StagedFile}
    (h : stageFiles sr files w = (.ok staged, w')) :
    staged.map (fun f => (f.path, f.kind)) = files.map fun f => (destination sr f.1, f.2.1) := by
  induction files generalizing w staged with
  | nil =>
    rw [stageFiles] at h
    obtain rfl := Except.ok.inj (Prod.mk.inj h).1
    rfl
  | cons f rest ih =>
    obtain ⟨outcome, w₁, fs, rfl, -, hrest⟩ := stageFiles_cons_eq_ok h
    rw [List.map_cons, List.map_cons, ih hrest]

/-- What is staged are the artifacts, and of each its files, at their destinations. -/
theorem stage_artifacts {as : List Artifact} {staged : List Staged}
    (h : stage sr as w = (.ok staged, w')) : staged.map Staged.artifact = as ∧
      ∀ s ∈ staged, s.files.map (fun f => (f.path, f.kind)) =
        s.artifact.files.map fun f => (destination sr f.1, f.2.1) := by
  induction as generalizing w staged with
  | nil =>
    rw [stage] at h
    obtain rfl := Except.ok.inj (Prod.mk.inj h).1
    exact ⟨rfl, by simp⟩
  | cons a rest ih =>
    obtain ⟨fs, w₁, ss, rfl, hfiles, hrest⟩ := stage_cons_eq_ok h
    obtain ⟨hartifacts, hpaths⟩ := ih hrest
    exact ⟨congrArg (a :: ·) hartifacts,
      List.forall_mem_cons.mpr ⟨stageFiles_paths hfiles, hpaths⟩⟩

/-- Every file of what is staged is one of an artifact, at its destination. -/
theorem path_of_mem_files {as : List Artifact} {staged : List Staged} {s : Staged} {f : StagedFile}
    (h : stage sr as w = (.ok staged, w')) (hs : s ∈ staged) (hf : f ∈ s.files) :
    s.artifact ∈ as ∧ f.path = destination sr (s.artifact.filePath f.kind) := by
  obtain ⟨hartifacts, hpaths⟩ := stage_artifacts h
  refine ⟨hartifacts ▸ List.mem_map_of_mem hs, ?_⟩
  have hmem : (f.path, f.kind) ∈ s.files.map fun f => (f.path, f.kind) := List.mem_map_of_mem hf
  rw [hpaths s hs] at hmem
  obtain ⟨e, he, heq⟩ := List.mem_map.mp hmem
  obtain ⟨k, -, hk⟩ := List.mem_filterMap.mp he
  obtain ⟨t, -, rfl⟩ := Option.map_eq_some_iff.mp hk
  obtain ⟨hpath, hkind⟩ := Prod.mk.inj heq
  dsimp only at hpath hkind
  rw [← hpath, hkind]

theorem mem_written {as : List Artifact} {staged : List Staged} {f : Artifact × StagedFile}
    (h : stage sr as w = (.ok staged, w')) (hf : f ∈ written staged) :
    f.1 ∈ as ∧ f.2.path = destination sr (f.1.filePath f.2.kind) := by
  obtain ⟨s, hs, hf⟩ := List.mem_flatMap.mp hf
  obtain ⟨g, hg, rfl⟩ := List.mem_map.mp hf
  exact path_of_mem_files h hs (List.mem_filter.mp hg).1

theorem nodup_kinds (a : Artifact) : (a.files.map fun f => f.2.1).Nodup := by
  obtain ⟨path, script, markup, style⟩ := a
  cases script <;> cases markup <;> cases style <;> simp [Artifact.files, Kind.all, Contents.get?]

/-- No two files written are of one artifact and of one kind. -/
theorem written_distinct {as : List Artifact} {staged : List Staged} (hd : Response.Distinct as)
    (h : stage sr as w = (.ok staged, w')) :
    (written staged).Pairwise fun f g => f.1.path ≠ g.1.path ∨ f.2.kind ≠ g.2.kind := by
  obtain ⟨rfl, hpaths⟩ := stage_artifacts h
  refine List.pairwise_flatMap.mpr ⟨fun s hs => ?_, ?_⟩
  · have hkinds : (s.files.map StagedFile.kind).Nodup := by
      have heq := congrArg (List.map Prod.snd) (hpaths s hs)
      rw [List.map_map, List.map_map] at heq
      exact heq ▸ nodup_kinds s.artifact
    refine List.pairwise_map.mpr ((List.pairwise_map.mp hkinds).filter _ |>.imp ?_)
    exact Or.inr
  · rw [Response.Distinct, List.map_map] at hd
    refine (List.pairwise_map.mp hd).imp fun hne f hf g hg => Or.inl ?_
    obtain ⟨_, -, rfl⟩ := List.mem_map.mp hf
    obtain ⟨_, -, rfl⟩ := List.mem_map.mp hg
    exact hne

/-! ### Staging is a run of writes -/

/-- The texts of written files, with the locations they were written to. -/
def deposits (w : Workspace) (files : List (Artifact × StagedFile)) : List (Location × Text) :=
  files.filterMap fun f =>
    match w.locate f.2.path, f.1.contents.get? f.2.kind with
    | .ok l, some t => some (l, t)
    | _, _ => none

theorem deposits_append (w : Workspace) (files files' : List (Artifact × StagedFile)) :
    deposits w (files ++ files') = deposits w files ++ deposits w files' := List.filterMap_append

theorem mem_deposits {files : List (Artifact × StagedFile)} {l : Location} {t : Text} :
    (l, t) ∈ deposits w files ↔
      ∃ f ∈ files, w.locate f.2.path = .ok l ∧ f.1.contents.get? f.2.kind = some t := by
  rw [deposits, List.mem_filterMap]
  refine exists_congr fun f => and_congr_right fun _ => ?_
  cases w.locate f.2.path with
  | error e => simp
  | ok l' => cases f.1.contents.get? f.2.kind <;> simp

/-- What becomes of a list of files of one artifact: a run of writes of the texts of those that could
be written. -/
structure IsRun (w : Workspace) (files : List (Artifact × StagedFile)) (w' : Workspace) : Prop where
  writes : Writes w (deposits w files) w'
  -- Every file that was written had a location and a text.
  deposited : ∀ f ∈ files, ∃ l t, w.locate f.2.path = .ok l ∧ f.1.contents.get? f.2.kind = some t

theorem IsRun.nil (w : Workspace) : IsRun w [] w where
  writes := .done w
  deposited := by simp

theorem IsRun.locate_eq {files : List (Artifact × StagedFile)} (h : IsRun w files w') :
    w'.locate = w.locate := funext h.writes.later.locate_eq

theorem IsRun.append {w w₁ w' : Workspace} {files files' : List (Artifact × StagedFile)}
    (h : IsRun w files w₁) (h' : IsRun w₁ files' w') : IsRun w (files ++ files') w' := by
  have hlocate := h.locate_eq
  refine ⟨?_, fun f hf => ?_⟩
  · have hsame : deposits w₁ files' = deposits w files' := by rw [deposits, deposits, hlocate]
    rw [deposits_append, ← hsame]
    exact h.writes.trans h'.writes
  · rcases List.mem_append.mp hf with hf | hf
    · exact h.deposited f hf
    · rw [← hlocate]
      exact h'.deposited f hf

/-- One write that succeeds. -/
theorem IsRun.single {a : Artifact} {path t : Text} {k : Kind} {new : Bool} {w₁ : Workspace}
    (h : w.write path t = (.ok new, w₁)) (ht : a.contents.get? k = some t) :
    IsRun w [(a, ⟨path, k, .ok new⟩)] w₁ := by
  obtain ⟨l, hl, -, -⟩ := wrote_of_ok h
  have hlog : deposits w [(a, ⟨path, k, .ok new⟩)] = [(l, t)] := by simp [deposits, hl, ht]
  refine ⟨hlog ▸ .step h hl (.done w₁), fun f hf => ?_⟩
  obtain rfl := List.mem_singleton.mp hf
  exact ⟨l, t, hl, ht⟩

/-- One write that fails. -/
theorem IsRun.missed {path t : Text} {e : Workspace.Error} {w₁ : Workspace}
    (h : w.write path t = (.error e, w₁)) : IsRun w [] w₁ where
  writes := .missed h (.done w₁)
  deposited := by simp

/-- Writing files of an artifact is a run of the writes of those that could be written. -/
theorem stageFiles_writes {a : Artifact} {files : List (Text × Kind × Text)} {staged : List StagedFile}
    (hfiles : ∀ f ∈ files, a.contents.get? f.2.1 = some f.2.2)
    (h : stageFiles sr files w = (.ok staged, w')) :
    IsRun w ((staged.filter StagedFile.ok).map (a, ·)) w' := by
  induction files generalizing w staged with
  | nil =>
    rw [stageFiles] at h
    obtain ⟨hs, rfl⟩ := Prod.mk.inj h
    obtain rfl := Except.ok.inj hs
    exact .nil w
  | cons f rest ih =>
    obtain ⟨file, k, t⟩ := f
    obtain ⟨ht, hrest⟩ := List.forall_mem_cons.mp hfiles
    obtain ⟨outcome, w₁, fs, rfl, hw, hfs⟩ := stageFiles_cons_eq_ok h
    have hrun := ih hrest hfs
    cases outcome with
    | error e => exact (IsRun.missed hw).append hrun
    | ok new => exact (IsRun.single hw ht).append hrun

theorem get?_of_mem_files {a : Artifact} {f : Text × Kind × Text} (h : f ∈ a.files) :
    a.contents.get? f.2.1 = some f.2.2 := by
  obtain ⟨k, -, hk⟩ := List.mem_filterMap.mp h
  obtain ⟨t, ht, rfl⟩ := Option.map_eq_some_iff.mp hk
  exact ht

/-- Staging artifacts is a run of the writes of their files that could be written. -/
theorem stage_writes {as : List Artifact} {staged : List Staged}
    (h : stage sr as w = (.ok staged, w')) : IsRun w (written staged) w' := by
  induction as generalizing w staged with
  | nil =>
    rw [stage] at h
    obtain ⟨hs, rfl⟩ := Prod.mk.inj h
    obtain rfl := Except.ok.inj hs
    exact .nil w
  | cons a rest ih =>
    obtain ⟨fs, w₁, ss, rfl, hfs, hrest⟩ := stage_cons_eq_ok h
    rw [written, List.flatMap_cons]
    exact (stageFiles_writes (fun f hf => get?_of_mem_files hf) hfs).append (ih hrest)

/-- Staging leads to a later workspace. -/
theorem stageFiles_later {files : List (Text × Kind × Text)} {r : Except Fault (List StagedFile)}
    (h : stageFiles sr files w = (r, w')) : Later w w' := by
  induction files generalizing w r with
  | nil =>
    rw [stageFiles] at h
    obtain ⟨-, rfl⟩ := Prod.mk.inj h
    exact .refl w
  | cons f rest ih =>
    obtain ⟨file, k, t⟩ := f
    rw [stageFiles] at h
    dsimp only at h
    cases hw : w.write (destination sr file) t with
    | mk outcome w₁ =>
      have hstep := later_write hw
      rw [hw] at h
      cases outcome with
      | ok new =>
        obtain ⟨-, rfl⟩ := Prod.mk.inj h
        exact hstep.trans (ih rfl)
      | error e =>
        cases e with
        | path e =>
          obtain ⟨-, rfl⟩ := Prod.mk.inj h
          exact hstep.trans (ih rfl)
        | fault f =>
          obtain ⟨-, rfl⟩ := Prod.mk.inj h
          exact hstep

theorem stage_later {as : List Artifact} {r : Except Fault (List Staged)}
    (h : stage sr as w = (r, w')) : Later w w' := by
  induction as generalizing w r with
  | nil =>
    rw [stage] at h
    obtain ⟨-, rfl⟩ := Prod.mk.inj h
    exact .refl w
  | cons a rest ih =>
    rw [stage] at h
    cases hfiles : stageFiles sr a.files w with
    | mk files w₁ =>
      have hstep := stageFiles_later hfiles
      rw [hfiles] at h
      cases files with
      | error f =>
        obtain ⟨-, rfl⟩ := Prod.mk.inj h
        exact hstep
      | ok fs =>
        obtain ⟨-, rfl⟩ := Prod.mk.inj h
        exact hstep.trans (ih rfl)

/-! ### What is left of them -/

/-- Every file written is read back as the text that its artifact holds of its kind. -/
def Kept (files : List (Artifact × StagedFile)) (w' : Workspace) : Prop :=
  ∀ f ∈ files, ∃ t, f.1.contents.get? f.2.kind = some t ∧ w'.read f.2.path = .ok t

/-- Files written to one location have one text. -/
def Agreeing (w : Workspace) (files : List (Artifact × StagedFile)) : Prop :=
  ∀ f ∈ files, ∀ g ∈ files, w.locate f.2.path = w.locate g.2.path →
    f.1.contents.get? f.2.kind = g.1.contents.get? g.2.kind

/-- No two files were written to one location. -/
def Apart (w : Workspace) (files : List (Artifact × StagedFile)) : Prop :=
  files.Pairwise fun f g => w.locate f.2.path ≠ w.locate g.2.path

theorem Apart.agreeing {files : List (Artifact × StagedFile)} (h : Apart w files) :
    Agreeing w files := by
  intro f hf g hg hsame
  by_cases heq : f = g
  · rw [heq]
  · have : Std.Symm fun f g : Artifact × StagedFile => w.locate f.2.path ≠ w.locate g.2.path :=
      ⟨fun _ _ => Ne.symm⟩
    exact absurd hsame (List.Pairwise.forall h hf hg heq)

theorem IsRun.kept_iff {files : List (Artifact × StagedFile)} (h : IsRun w files w') :
    Kept files w' ↔ Agreeing w files := by
  have hlocate := h.locate_eq
  constructor
  · intro hkept f hf g hg hsame
    obtain ⟨t, ht, hread⟩ := hkept f hf
    obtain ⟨u, hu, hread'⟩ := hkept g hg
    have hlocated : w'.locate f.2.path = w'.locate g.2.path := hlocate ▸ hsame
    rw [ht, hu, read_unique hlocated hread hread']
  · intro hagree f hf
    obtain ⟨l, t, hl, ht⟩ := h.deposited f hf
    have hmem : (l, t) ∈ deposits w files := mem_deposits.mpr ⟨f, hf, hl, ht⟩
    refine ⟨t, ht, read_eq_ok (hlocate ▸ hl) (h.writes.reached hmem) ?_⟩
    refine h.writes.kept_iff.mpr ?_ l t hmem
    intro m u u' hu hu'
    obtain ⟨g, hg, hlg, htg⟩ := mem_deposits.mp hu
    obtain ⟨g', hg', hlg', htg'⟩ := mem_deposits.mp hu'
    exact Option.some.inj (htg.symm.trans ((hagree g hg g' hg' (hlg.trans hlg'.symm)).trans htg'))

/-! ### Homonymous files -/

/-- Files of two artifacts, of one kind, that have one destination. -/
structure Homonymous (sr : Text) (f g : Artifact × StagedFile) : Prop where
  artifacts : f.1.path ≠ g.1.path
  kinds : f.2.kind = g.2.kind
  destinations : destination sr (f.1.filePath f.2.kind) = destination sr (g.1.filePath g.2.kind)

instance (sr : Text) (f g : Artifact × StagedFile) : Decidable (Homonymous sr f g) :=
  decidable_of_iff (f.1.path ≠ g.1.path ∧ f.2.kind = g.2.kind ∧
      destination sr (f.1.filePath f.2.kind) = destination sr (g.1.filePath g.2.kind))
    ⟨fun ⟨h1, h2, h3⟩ => ⟨h1, h2, h3⟩, fun ⟨h1, h2, h3⟩ => ⟨h1, h2, h3⟩⟩

/-- Two files written are at one location exactly when they are homonymous. -/
theorem locate_eq_iff {raw : Text} {as : List Artifact} {staged : List Staged}
    {f g : Artifact × StagedFile} (hp : Response.parse? raw = some as) (hroot : w.root.Resolved)
    (h : stage sr as w = (.ok staged, w')) (hf : f ∈ written staged) (hg : g ∈ written staged)
    (hne : f.1.path ≠ g.1.path ∨ f.2.kind ≠ g.2.kind) :
    w.locate f.2.path = w.locate g.2.path ↔ Homonymous sr f g := by
  have hclean {f : Artifact × StagedFile} (hf : f ∈ written staged) : Path.IsClean f.1.path :=
    (Response.path_of_mem_artifacts
      (Response.eq_artifacts_of_parse? hp ▸ (mem_written h hf).1)).1
  have hpath := (mem_written h hf).2
  have hpath' := (mem_written h hg).2
  constructor
  · intro hsame
    obtain ⟨l, -, hl, -⟩ := (stage_writes h).deposited f hf
    have hl' := hsame.symm.trans hl
    rw [hpath] at hl
    rw [hpath'] at hl'
    have hdest := destination_of_locateFrom hroot (Artifact.isClean_pathFor (hclean hf) _)
      (Artifact.isClean_pathFor (hclean hg) _) hl hl'
    have hkind := kind_of_destination (hclean hf) (hclean hg) hdest
    exact ⟨hne.resolve_right (not_not_intro hkind), hkind, hdest⟩
  · intro hhom
    rw [hpath, hpath', hhom.destinations]

/-- **All files written are read back, each from a location of its own, exactly when no two of them are
homonymous.**  All are read back, though not each from a location of its own, exactly when the homonymous
ones have one text. -/
theorem stage_kept_iff {raw : Text} {as : List Artifact} {staged : List Staged}
    (hp : Response.parse? raw = some as) (hroot : w.root.Resolved)
    (h : stage sr as w = (.ok staged, w')) :
    (Kept (written staged) w' ∧ Apart w (written staged) ↔
      ∀ f ∈ written staged, ∀ g ∈ written staged, ¬ Homonymous sr f g) ∧
    (Kept (written staged) w' ↔ ∀ f ∈ written staged, ∀ g ∈ written staged, Homonymous sr f g →
      f.1.contents.get? f.2.kind = g.1.contents.get? g.2.kind) := by
  have hrun := stage_writes h
  have hdistinct := written_distinct
    (Response.eq_artifacts_of_parse? hp ▸ Response.distinct_artifacts raw) h
  have hsymm : Std.Symm fun f g : Artifact × StagedFile =>
      f.1.path ≠ g.1.path ∨ f.2.kind ≠ g.2.kind := ⟨fun _ _ => Or.imp Ne.symm Ne.symm⟩
  have hsymm' : Std.Symm fun f g : Artifact × StagedFile => w.locate f.2.path ≠ w.locate g.2.path :=
    ⟨fun _ _ => Ne.symm⟩
  refine ⟨⟨fun ⟨_, hapart⟩ f hf g hg hhom => ?_, fun hnone => ?_⟩, ?_⟩
  · have hne : f ≠ g := fun he => hhom.artifacts (congrArg (·.1.path) he)
    exact hapart.forall hf hg hne
      ((locate_eq_iff hp hroot h hf hg (Or.inl hhom.artifacts)).mpr hhom)
  · have hapart : Apart w (written staged) := hdistinct.imp_of_mem fun hf hg hne hsame =>
      hnone _ hf _ hg ((locate_eq_iff hp hroot h hf hg hne).mp hsame)
    exact ⟨hrun.kept_iff.mpr hapart.agreeing, hapart⟩
  · rw [hrun.kept_iff]
    refine ⟨fun hagree f hf g hg hhom => hagree f hf g hg ?_, fun hagree f hf g hg hsame => ?_⟩
    · exact (locate_eq_iff hp hroot h hf hg (Or.inl hhom.artifacts)).mpr hhom
    · by_cases heq : f = g
      · rw [heq]
      · exact hagree f hf g hg
          ((locate_eq_iff hp hroot h hf hg (hdistinct.forall hf hg heq)).mp hsame)

/-- A response with a component of two files, and a script beside it. -/
def neighboursReply : Text :=
  ("### filename: x ###\n\x60\x60\x60ts\na\n\x60\x60\x60\n\x60\x60\x60css\nb\n\x60\x60\x60\n" ++
    "### filename: y.ts ###\n\x60\x60\x60ts\nc\n\x60\x60\x60").toList

def neighbours : List Artifact :=
  [⟨"x".toList, { script := some ['a'], style := some ['b'] }⟩, ⟨"y.ts".toList, { script := some ['c'] }⟩]

def neighboursStaged : List Staged :=
  [⟨⟨"x".toList, { script := some ['a'], style := some ['b'] }⟩,
    [⟨"src/app/x.ts".toList, .script, .ok true⟩, ⟨"src/app/x.scss".toList, .style, .ok true⟩]⟩,
   ⟨⟨"y.ts".toList, { script := some ['c'] }⟩, [⟨"src/app/y.ts".toList, .script, .ok true⟩]⟩]

/-- Three files at three locations are all kept. -/
theorem stage_kept_neighbours : ∃ w',
    Response.parse? neighboursReply = some neighbours ∧
      stage "src".toList neighbours vacant = (.ok neighboursStaged, w') ∧
      Kept (written neighboursStaged) w' ∧ Apart vacant (written neighboursStaged) := by
  have hp : Response.parse? neighboursReply = some neighbours := by decide +kernel
  have h : stage "src".toList neighbours vacant =
      (.ok neighboursStaged, (stage "src".toList neighbours vacant).2) := Prod.ext rfl rfl
  have hnone : ∀ f ∈ written neighboursStaged, ∀ g ∈ written neighboursStaged,
      ¬ Homonymous "src".toList f g := by decide +kernel
  exact ⟨_, hp, h, (stage_kept_iff hp vacant_resolved h).1.mpr hnone⟩

/-- A response with two scripts, of which the path of one says what it is. -/
def homonymsReply : Text :=
  ("### filename: x ###\n\x60\x60\x60ts\na\n\x60\x60\x60\n" ++
    "### filename: x.ts ###\n\x60\x60\x60ts\nb\n\x60\x60\x60").toList

def homonyms : List Artifact :=
  [⟨"x".toList, { script := some ['a'] }⟩, ⟨"x.ts".toList, { script := some ['b'] }⟩]

def homonymsStaged : List Staged :=
  [⟨⟨"x".toList, { script := some ['a'] }⟩, [⟨"src/app/x.ts".toList, .script, .ok true⟩]⟩,
   ⟨⟨"x.ts".toList, { script := some ['b'] }⟩, [⟨"src/app/x.ts".toList, .script, .ok false⟩]⟩]

/-- The second of two scripts for one file is all that is kept. -/
theorem stage_homonyms_not_kept :
    ¬ ∀ (raw sr : Text) (w w' : Workspace) (as : List Artifact) (staged : List Staged),
      '\x00' ∉ raw → w.root.Resolved → Response.parse? raw = some as →
        stage sr as w = (.ok staged, w') → Kept (written staged) w' ∧ Apart w (written staged) := by
  intro hall
  have h : stage "src".toList homonyms vacant =
      (.ok homonymsStaged, (stage "src".toList homonyms vacant).2) := Prod.ext rfl rfl
  have hparse : Response.parse? homonymsReply = some homonyms := by decide +kernel
  obtain ⟨hkept, -⟩ := hall homonymsReply _ _ _ _ _ (by decide +kernel) vacant_resolved hparse h
  have hagree : Agreeing vacant (written homonymsStaged) := (stage_writes h).kept_iff.mp hkept
  have hsame := hagree _ List.mem_cons_self _ (List.mem_cons_of_mem _ List.mem_cons_self) rfl
  cases Option.some.inj hsame

end Graft.Staging

