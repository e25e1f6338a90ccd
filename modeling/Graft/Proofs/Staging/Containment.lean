import Graft.Layout
import Graft.Proofs.Response.Paths
import Graft.Proofs.Workspace.Addressing

/-
Files of artifacts stay below their source root.

* `IsSourceRoot sr` — a source root with slashes inside only, and no backslashes;
* `locate_joined`, `locate_clean` — where a file is addressed that goes into the application directory,
  and one whose path begins with the source root;
* `locate_destination` — clean files go to places at or below the source root;
* `destination_below_iff` — **a generated file lies strictly below the source root of its project,
  whatever the response says, unless its path is that of the source root itself.**

Design notes: a destination is looked at as its segments.  Those of the file are names, so they lead
downwards from wherever the source root is.
-/
namespace Graft.Staging

open Graft.Path

/-! ### Source roots -/

/-- A source root with slashes inside only, and no backslashes. -/
structure IsSourceRoot (sr : Text) : Prop where
  nonempty : sr ≠ []
  -- It has no slash at either end.
  bare : bare sr = sr
  noBackslash : '\\' ∉ sr

theorem IsSourceRoot.head_ne_slash {sr : Text} (h : IsSourceRoot sr) : sr.head? ≠ some '/' := by
  intro hhead
  cases sr with
  | nil => cases hhead
  | cons c cs =>
    obtain rfl := Option.some.inj hhead
    -- Without its slash the root would be shorter.
    have hlength := congrArg List.length h.bare
    have hdrop : ('/' :: cs).dropWhile isSlash = cs.dropWhile isSlash := rfl
    rw [Staging.bare, Text.trim, hdrop, Text.trimRight_eq_rdropWhile] at hlength
    have h1 := (List.rdropWhile_prefix isSlash (cs.dropWhile isSlash)).length_le
    have h2 := (List.dropWhile_suffix isSlash (l := cs)).length_le
    rw [List.length_cons] at hlength
    omega

theorem bare_bare (t : Text) : bare (bare t) = bare t := by
  have hhead : ∀ c ∈ (bare t).head?, isSlash c = false := by
    intro c hc
    have hprefix : bare t <+: t.dropWhile isSlash := by
      rw [bare, Text.trim, Text.trimRight_eq_rdropWhile]
      exact List.rdropWhile_prefix _ _
    obtain ⟨r, hr⟩ := hprefix
    have hne : bare t ≠ [] := by
      intro hnil
      rw [hnil] at hc
      cases hc
    have hfirst := List.head?_dropWhile_not isSlash t
    rw [← hr, List.head?_append_of_ne_nil _ hne, hc] at hfirst
    simpa using hfirst
  have hlast : ∀ c ∈ (bare t).getLast?, isSlash c = false := by
    intro c hc
    have hne : bare t ≠ [] := by
      intro hnil
      rw [hnil] at hc
      cases hc
    rw [List.getLast?_eq_getLast_of_ne_nil hne] at hc
    obtain rfl := Option.some.inj hc
    have hnot : ¬ isSlash ((t.dropWhile isSlash).rdropWhile isSlash |>.getLast
        (by rwa [← Text.trimRight_eq_rdropWhile])) = true :=
      List.rdropWhile_last_not isSlash _ _
    rw [Bool.not_eq_true] at hnot
    simpa [bare, Text.trim, Text.trimRight_eq_rdropWhile] using hnot
  exact Text.trim_eq_self hhead hlast

theorem isSourceRoot_clean (given : Option Text) : IsSourceRoot (Layout.cleanSourceRoot given) := by
  unfold Layout.cleanSourceRoot
  split
  · exact ⟨by decide, by decide, by decide⟩
  next h =>
    refine ⟨h, bare_bare _, fun hmem => ?_⟩
    exact backslash_not_mem_forward _ ((Text.isInfix_trim isSlash _).subset hmem)

/-! ### Destinations -/

variable {root : Location} {sr file : Text}

theorem name_app : IsName appDirectory := by decide

/-- The application directory of a source root that names something. -/
theorem joined_app (hsr : sr ≠ []) : joined [sr, appDirectory] = sr ++ '/' :: appDirectory := by
  have hfilter : [sr, appDirectory].filter (fun p => !p.isEmpty) = [sr] ++ [appDirectory] := by
    rw [List.filter_cons_of_pos (by simpa using hsr)]
    rfl
  rw [joined, hfilter, join_append (by simp) (by simp), join_singleton, join_singleton]

theorem joined_file (sr : Text) (hfile : file ≠ []) :
    joined [sr, appDirectory, file] = joined [sr, appDirectory] ++ '/' :: file := by
  have hlast : [file].filter (fun p => !p.isEmpty) = [file] :=
    List.filter_cons_of_pos (by simpa using hfile)
  have hfilter : ([sr, appDirectory] ++ [file]).filter (fun p => !p.isEmpty) =
      [sr, appDirectory].filter (fun p => !p.isEmpty) ++ [file] := by
    rw [List.filter_append, hlast]
  have hne : [sr, appDirectory].filter (fun p => !p.isEmpty) ≠ [] :=
    List.ne_nil_of_mem (List.mem_filter.mpr ⟨List.mem_cons_of_mem _ List.mem_cons_self, rfl⟩)
  rw [joined, show [sr, appDirectory, file] = [sr, appDirectory] ++ [file] from rfl, hfilter,
    join_append hne (by simp), join_singleton]
  rfl

/-- A file that is put into the application directory lies below the source root. -/
theorem locate_joined (hroot : root.Resolved) (hsr : IsSourceRoot sr) (hup : above ∉ split sr)
    (hfile : IsClean file) (hnul : '\x00' ∉ sr ∧ '\x00' ∉ file) :
    Workspace.locateFrom root (joined [sr, appDirectory, file]) =
      .ok (locate root sr ++ appDirectory :: split file) := by
  have hparts : joined [sr, appDirectory, file] = sr ++ '/' :: (appDirectory ++ '/' :: file) := by
    rw [joined_file sr hfile.ne_nil, joined_app hsr.nonempty, List.append_assoc, List.cons_append]
  have hsplit : split (joined [sr, appDirectory, file]) =
      split sr ++ appDirectory :: split file := by
    rw [hparts, split_append_slash, split_append_slash]
    rfl
  have hnames : ∀ s ∈ appDirectory :: split file, IsName s :=
    List.forall_mem_cons.mpr ⟨name_app, hfile.names⟩
  have hback : '\\' ∉ appDirectory := by decide
  have hzero : '\x00' ∉ appDirectory := by decide
  have hhead : (joined [sr, appDirectory, file]).head? ≠ some '/' := by
    rw [hparts, List.head?_append_of_ne_nil _ hsr.nonempty]
    exact hsr.head_ne_slash
  have hchars (c : Char) (hsep : c ≠ '/') (hs : c ∉ sr) (ha : c ∉ appDirectory) (hf : c ∉ file) :
      c ∉ joined [sr, appDirectory, file] := by
    rw [hparts]
    simp [hsep, hs, ha, hf]
  have hbelow : above ∉ split (joined [sr, appDirectory, file]) := by
    rw [hsplit, List.mem_append, not_or]
    exact ⟨hup, above_not_mem hnames⟩
  have hnamed : named (joined [sr, appDirectory, file]) =
      named sr ++ appDirectory :: split file := by
    rw [named_eq, hsplit, List.filter_append, filter_isNamed hnames, named_eq]
  rw [Workspace.locateFrom_eq_ok hroot hhead
    (hchars _ (by decide) hsr.noBackslash hback hfile.noBackslash)
    (hchars _ (by decide) hnul.1 hzero hnul.2) hbelow (by simp [hnamed]),
    hnamed, locate_of_not_above hroot hsr.head_ne_slash hup, List.append_assoc]

/-- A file whose path begins with the source root is addressed as it is. -/
theorem locate_clean (hroot : root.Resolved) (hfile : IsClean file) (hnul : '\x00' ∉ file) :
    Workspace.locateFrom root file = .ok (root ++ split file) := by
  have hne : named file ≠ [] := by
    rw [hfile.named_eq_split]
    exact List.splitOn_ne_nil '/' file
  rw [Workspace.locateFrom_eq_ok hroot hfile.head_ne_slash hfile.noBackslash hnul hfile.not_above hne,
    hfile.named_eq_split]

/-- A clean file goes to a place at or below the source root, and strictly below unless its path is
that of the source root. -/
theorem locate_destination (hroot : root.Resolved) (hsr : IsSourceRoot sr) (hup : above ∉ split sr)
    (hfile : IsClean file) (hnul : '\x00' ∉ sr ∧ '\x00' ∉ file) :
    ∃ below, Workspace.locateFrom root (destination sr file) = .ok (locate root sr ++ below) ∧
      (below = [] ↔ file = sr) := by
  have hdir : locate root sr = root ++ named sr := locate_of_not_above hroot hsr.head_ne_slash hup
  have hempty : sr.isEmpty = false := by simpa using hsr.nonempty
  unfold destination
  dsimp only
  rw [hsr.bare, hempty]
  by_cases hself : file = sr
  · subst hself
    refine ⟨[], ?_, by simp⟩
    rw [if_pos (by simp), locate_clean hroot hfile hnul.2, hdir, hfile.named_eq_split,
      List.append_nil]
  · cases hafter : Text.after? (sr ++ ['/']) file with
    | some rest =>
      have heq : file = sr ++ '/' :: rest := by
        rw [Text.after?_eq_some_iff.mp hafter, List.append_assoc]
        rfl
      have hsplit : split file = split sr ++ split rest := by rw [heq, split_append_slash]
      have hnames : ∀ s ∈ split sr, IsName s := fun s hs =>
        hfile.names s (by rw [hsplit]; exact List.mem_append_left _ hs)
      refine ⟨split rest, ?_, ?_⟩
      · rw [if_pos (by simp), locate_clean hroot hfile hnul.2, hdir, named_eq,
          filter_isNamed hnames, hsplit, List.append_assoc]
      · exact iff_of_false (List.splitOn_ne_nil '/' rest) hself
    | none =>
      refine ⟨appDirectory :: split file, ?_, iff_of_false (List.cons_ne_nil _ _) hself⟩
      rw [if_neg (by simpa using hself)]
      exact locate_joined hroot hsr hup hfile hnul

/-! ### Generated files -/

theorem below_append_iff (dir below : Location) : dir.Below (dir ++ below) ↔ below ≠ [] := by
  constructor
  · rintro ⟨s, ss, h⟩ hnil
    rw [List.append_cancel_left h] at hnil
    cases hnil
  · intro h
    obtain ⟨s, ss, rfl⟩ := List.exists_cons_of_ne_nil h
    exact ⟨s, ss, rfl⟩

/-- The files of the artifacts of a response are clean, and have no character that is not in it but
slashes and those of extensions. -/
theorem filePath_of_mem_artifacts {raw : Text} {a : Artifact} (h : a ∈ Response.artifacts raw)
    (k : Kind) : IsClean (a.filePath k) ∧
      ∀ c ∈ a.filePath k, c = '/' ∨ c ∈ raw ∨ c ∈ '.' :: k.extension := by
  obtain ⟨hclean, hchars⟩ := Response.path_of_mem_artifacts h
  refine ⟨Artifact.isClean_pathFor hclean k, fun c hc => ?_⟩
  rcases Artifact.mem_pathFor hc with hc | hc
  · exact (hchars c hc).imp_right fun hin => Or.inl hin.1
  · exact Or.inr (Or.inr hc)

/-- **A generated file lies strictly below the source root of its project, whatever the response says,
unless its path is that of the source root itself**, where it then lies.  The source root is inside of
the workspace. -/
theorem destination_below_iff {raw : Text} {as : List Artifact} {a : Artifact}
    (hp : Response.parse? raw = some as) (ha : a ∈ as) (hraw : '\x00' ∉ raw) (k : Kind)
    {w : Workspace} (hroot : w.root.Resolved) {given : Option Text}
    (hup : above ∉ split (Layout.cleanSourceRoot given))
    (hnul : '\x00' ∉ Layout.cleanSourceRoot given) :
    ∃ l, w.locate (destination (Layout.cleanSourceRoot given) (a.filePath k)) = .ok l ∧
      w.root <+: locate w.root (Layout.cleanSourceRoot given) ∧
      (Location.Below (locate w.root (Layout.cleanSourceRoot given)) l ↔
        a.filePath k ≠ Layout.cleanSourceRoot given) ∧
      (a.filePath k = Layout.cleanSourceRoot given →
        l = locate w.root (Layout.cleanSourceRoot given)) := by
  have hsr := isSourceRoot_clean given
  obtain ⟨hclean, hchars⟩ := filePath_of_mem_artifacts (Response.eq_artifacts_of_parse? hp ▸ ha) k
  have hfile : '\x00' ∉ a.filePath k := by
    intro hmem
    rcases hchars _ hmem with h | h | h
    · exact absurd h (by decide)
    · exact hraw h
    · cases k <;> exact absurd h (by decide)
  obtain ⟨below, hlocate, hnil⟩ := locate_destination hroot hsr hup hclean ⟨hnul, hfile⟩
  refine ⟨_, hlocate, ?_, ?_, fun heq => ?_⟩
  · rw [locate_of_not_above hroot hsr.head_ne_slash hup]
    exact List.prefix_append _ _
  · rw [below_append_iff, ne_eq, hnil]
  · rw [hnil.mpr heq, List.append_nil]

/-- A response whose marker has slashes of both kinds, dots and quotes around its path. -/
def windingReply : Text :=
  "### filename: '//.\\a/./b\\..\\x.html' ###\n\x60\x60\x60ts\nx\n\x60\x60\x60".toList

/-- The script goes into the application directory, beside the template that its path names. -/
theorem destination_below_winding :
    Response.parse? windingReply = some [⟨"a/x.html".toList, { script := some ['x'] }⟩] ∧
      ∃ l, Workspace.vacant.locate (destination (Layout.cleanSourceRoot none)
          (Artifact.filePath ⟨"a/x.html".toList, { script := some ['x'] }⟩ .script)) = .ok l ∧
        Location.Below (locate Workspace.vacant.root (Layout.cleanSourceRoot none)) l := by
  have hp : Response.parse? windingReply =
      some [⟨"a/x.html".toList, { script := some ['x'] }⟩] := by decide +kernel
  obtain ⟨l, hl, -, hbelow, -⟩ := destination_below_iff hp (List.mem_singleton_self _)
    (by decide +kernel) .script Workspace.vacant_resolved
    (by decide : above ∉ split (Layout.cleanSourceRoot none)) (by decide)
  exact ⟨hp, l, hl, hbelow.mpr (by decide +kernel)⟩

/-- A response with a script of the same name as the source root. -/
def homonymousReply : Text :=
  "### filename: w.ts ###\n\x60\x60\x60ts\nx\n\x60\x60\x60".toList

/-- A script whose path is that of the source root is put in its place. -/
theorem destination_homonymous_not_below :
    ¬ ∀ (raw : Text) (as : List Artifact) (a : Artifact) (k : Kind) (w : Workspace)
      (given : Option Text), Response.parse? raw = some as → a ∈ as → '\x00' ∉ raw →
        (a.contents.get? k).isSome → w.root.Resolved →
        above ∉ split (Layout.cleanSourceRoot given) →
        '\x00' ∉ Layout.cleanSourceRoot given →
        ∃ l, w.locate (destination (Layout.cleanSourceRoot given) (a.filePath k)) = .ok l ∧
          Location.Below (locate w.root (Layout.cleanSourceRoot given)) l := by
  intro hall
  obtain ⟨l, hl, s, ss, hbelow⟩ := hall homonymousReply [⟨"w.ts".toList, { script := some ['x'] }⟩] _ .script
    Workspace.vacant (some "w.ts".toList) (by decide +kernel) (List.mem_singleton_self _)
    (by decide +kernel) rfl Workspace.vacant_resolved (by decide +kernel) (by decide +kernel)
  have hplace : Workspace.vacant.locate (destination (Layout.cleanSourceRoot (some "w.ts".toList))
      (Artifact.filePath ⟨"w.ts".toList, { script := some ['x'] }⟩ .script)) =
        .ok (locate Workspace.vacant.root (Layout.cleanSourceRoot (some "w.ts".toList))) := by
    decide +kernel
  have hsame := hbelow.symm.trans (Except.ok.inj (hl.symm.trans hplace))
  have hlength := congrArg List.length hsame
  rw [List.length_append, List.length_cons] at hlength
  omega

end Graft.Staging
