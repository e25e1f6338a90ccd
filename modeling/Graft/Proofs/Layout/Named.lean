import Graft.Proofs.Layout.Roots

/-
A host that is named, and one that is found through the manifest.

* `directoryMark` — the application directory as it stands inside a path;
* `sourceRoot?_modulePath` — the source root that is read off the path of a module is the beginning of
  the one it was put together from, and all of it unless a directory in it has the name of the
  application directory;
* `cleanSourceRoot_self_iff` — a source root is cleaned to itself unless it has white space at an end;
* `Agree found named` — two layouts of which one stages and extends what the other does;
* `find_named_iff` — **naming the module that the manifest leads to finds the same layout exactly when no
  directory of the source root but the first has the name of the application directory, and the source
  root has no white space at its ends**.

Design notes: the source root is found again by a search from the front, so a source root is compared with
its own beginnings, directory by directory.
-/
namespace Graft.Layout

open Graft.Path Workspace

variable {w : Workspace} {m : Manifest} {project given : Option Text} {sr v : Text}

/-! ### The source root of a path -/

/-- A path that leads through a directory. -/
theorem join_through (s : Text) {ss us : List Text} (hss : ss ≠ []) (hus : us ≠ []) :
    join (ss ++ s :: us) = join ss ++ (('/' :: s ++ ['/']) ++ join us) := by
  have hlist : s :: us = [s] ++ us := rfl
  rw [join_append hss (List.cons_ne_nil _ _), hlist, join_append (List.cons_ne_nil _ _) hus,
    join_singleton]
  simp

/-- The directories on the way to a module are those of its source root, and the application directory. -/
theorem modulePath_eq_join (sr : Text) :
    modulePath sr = join (split sr ++ [Staging.appDirectory, "app.module.ts".toList]) := by
  have hne : split sr ≠ [] := List.splitOn_ne_nil '/' sr
  rw [join_append hne (List.cons_ne_nil _ _), join_split, modulePath, partOf, List.append_assoc]
  rfl

theorem forward_modulePath (hsr : Staging.IsSourceRoot sr) : forward (modulePath sr) = modulePath sr := by
  refine forward_eq_self ?_
  rw [modulePath, partOf, List.append_assoc, List.mem_append, not_or]
  exact ⟨hsr.noBackslash, by decide⟩

/-- The path of a module is relative. -/
theorem head_modulePath (hsr : Staging.IsSourceRoot sr) : ∀ c ∈ (modulePath sr).head?, isSlash c = false := by
  intro c hc
  rw [modulePath, partOf, List.append_assoc, List.head?_append_of_ne_nil _ hsr.nonempty] at hc
  have hne : c ≠ '/' := by
    rintro rfl
    exact hsr.head_ne_slash hc
  simpa [isSlash] using hne

/-- The application directory as it stands inside a path. -/
def directoryMark : Text := '/' :: Staging.appDirectory ++ ['/']

/-- In the path of a module the application directory stands behind the source root. -/
theorem modulePath_eq_append (sr : Text) :
    modulePath sr = sr ++ (directoryMark ++ "app.module.ts".toList) := by
  rw [modulePath, partOf, List.append_assoc]
  rfl

theorem bare_modulePath (hsr : Staging.IsSourceRoot sr) : Staging.bare (modulePath sr) = modulePath sr := by
  refine Text.trim_eq_self (head_modulePath hsr) fun c hc => ?_
  rw [modulePath_eq_append, ← List.append_assoc, List.getLast?_append_of_ne_nil _ (by decide)] at hc
  obtain rfl : 's' = c := Option.some.inj hc
  decide

/-- An application directory is found in the path of a module, and there is something before it. -/
theorem exists_before?_modulePath (hsr : Staging.IsSourceRoot sr) :
    ∃ v, Text.before? directoryMark (modulePath sr) = some v ∧
      Staging.sourceRoot? (modulePath sr) = some v := by
  have hmark : directoryMark ≠ [] := List.cons_ne_nil _ _
  have hfound : (Text.before? directoryMark (modulePath sr)).isSome := by
    rw [Option.isSome_iff_ne_none, ne_eq, Text.before?_eq_none_iff hmark, not_not, modulePath_eq_append]
    exact List.infix_append' _ _ _
  obtain ⟨v, hv⟩ := Option.isSome_iff_exists.mp hfound
  refine ⟨v, hv, ?_⟩
  have hv' : Text.before? ('/' :: Staging.appDirectory ++ ['/']) (modulePath sr) = some v := hv
  rw [Staging.sourceRoot?, forward_modulePath hsr, bare_modulePath hsr, hv']
  cases v with
  | cons c cs => rfl
  | nil =>
    -- The path does not begin with a slash, as the application directory would then.
    obtain ⟨⟨r, hr⟩, -⟩ := Text.before?_eq_some_iff.mp hv
    have hhead : (modulePath sr).head? = some '/' := by
      rw [hr]
      rfl
    rw [modulePath_eq_append, List.head?_append_of_ne_nil _ hsr.nonempty] at hhead
    exact absurd hhead hsr.head_ne_slash

/-- What stands before the application directory that is found begins the source root. -/
theorem prefix_of_before?_modulePath (hv : Text.before? directoryMark (modulePath sr) = some v) :
    v <+: sr := by
  obtain ⟨⟨r, hr⟩, hleast⟩ := Text.before?_eq_some_iff.mp hv
  have hlength : v.length ≤ sr.length := hleast sr _ (modulePath_eq_append sr)
  exact List.prefix_of_prefix_length_le ⟨_, hr.symm⟩ ⟨_, (modulePath_eq_append sr).symm⟩ hlength

/-- A directory of that name in the source root would have been found before. -/
theorem notMem_tail_of_before?_modulePath (hv : Text.before? directoryMark (modulePath v) = some v) :
    Staging.appDirectory ∉ (split v).tail := by
  intro hmem
  obtain ⟨-, hleast⟩ := Text.before?_eq_some_iff.mp hv
  obtain ⟨first, tail, hsplit⟩ := List.exists_cons_of_ne_nil (List.splitOn_ne_nil '/' v)
  rw [show split v = first :: tail from hsplit, List.tail_cons] at hmem
  obtain ⟨a, b, rfl⟩ := List.append_of_mem hmem
  have hsegments : split v = (first :: a) ++ (Staging.appDirectory :: b) := hsplit
  let behind : List Text := b ++ [Staging.appDirectory, "app.module.ts".toList]
  have hbehind : behind ≠ [] := by simp [behind]
  have hearly : modulePath v = join (first :: a) ++ (directoryMark ++ join behind) := by
    have hlist : split v ++ [Staging.appDirectory, "app.module.ts".toList] =
        (first :: a) ++ Staging.appDirectory :: behind := by
      rw [hsegments, List.append_assoc]
      rfl
    rw [modulePath_eq_join, hlist, join_through _ (List.cons_ne_nil _ _) hbehind]
    rfl
  have hshort : v = join (first :: a) ++ '/' :: join (Staging.appDirectory :: b) := by
    rw [← join_append (List.cons_ne_nil _ _) (List.cons_ne_nil _ _), ← hsegments, join_split]
  have hle := hleast _ _ hearly
  have hlt := congrArg List.length hshort
  rw [List.length_append, List.length_cons] at hlt
  omega

/-- What is left of the source root behind an earlier application directory begins with its name. -/
theorem mem_tail_of_before?_modulePath (hv : Text.before? directoryMark (modulePath sr) = some v)
    (hne : v ≠ sr) : Staging.appDirectory ∈ (split sr).tail := by
  obtain ⟨⟨r, hr⟩, -⟩ := Text.before?_eq_some_iff.mp hv
  obtain ⟨x, hx⟩ := prefix_of_before?_modulePath hv
  have hrest : x ++ (directoryMark ++ "app.module.ts".toList) = directoryMark ++ r := by
    have hsame := (modulePath_eq_append sr).symm.trans hr
    rw [← hx, List.append_assoc] at hsame
    exact List.append_cancel_left hsame
  cases x with
  | nil => exact absurd (by rw [← hx, List.append_nil]) hne
  | cons c x =>
    obtain rfl : c = '/' := (List.cons.inj hrest).1
    have hsplit : split sr = split v ++ split x := by rw [← hx, split_append_slash]
    have happ : split x ++ [Staging.appDirectory, "app.module.ts".toList] =
        Staging.appDirectory :: split r := by
      have hleft : split (x ++ (directoryMark ++ "app.module.ts".toList)) =
          split x ++ [Staging.appDirectory, "app.module.ts".toList] := split_append_slash x _
      have hright : split (Staging.appDirectory ++ '/' :: r) = [Staging.appDirectory] ++ split r :=
        split_append_slash Staging.appDirectory r
      have hsame : x ++ (directoryMark ++ "app.module.ts".toList) =
          Staging.appDirectory ++ '/' :: r := (List.cons.inj hrest).2
      rw [← hleft, hsame, hright]
      rfl
    obtain ⟨s, ss, hs⟩ := List.exists_cons_of_ne_nil (List.splitOn_ne_nil '/' x)
    obtain ⟨first, tail, hfirst⟩ := List.exists_cons_of_ne_nil (List.splitOn_ne_nil '/' v)
    have hs' : split x = s :: ss := hs
    have hfirst' : split v = first :: tail := hfirst
    rw [hs'] at happ
    rw [hsplit, hfirst', hs', List.cons_append, List.tail_cons, (List.cons.inj happ).1]
    simp

/-- What is read off the path of a module for its source root. -/
theorem sourceRoot?_modulePath (hsr : Staging.IsSourceRoot sr) :
    ∃ v, Staging.sourceRoot? (modulePath sr) = some v ∧ v <+: sr ∧
      (v = sr ↔ Staging.appDirectory ∉ (split sr).tail) := by
  obtain ⟨v, hv, hread⟩ := exists_before?_modulePath hsr
  refine ⟨v, hread, prefix_of_before?_modulePath hv, ?_, fun hnot => ?_⟩
  · rintro rfl
    exact notMem_tail_of_before?_modulePath hv
  · by_contra hne
    exact hnot (mem_tail_of_before?_modulePath hv hne)

/-! ### Cleaning a source root -/

/-- A source root that is cleaned does not grow, unless it is the default one then. -/
theorem length_cleanSourceRoot_le (t : Text) (hne : cleanSourceRoot (some t) ≠ defaultSourceRoot) :
    (cleanSourceRoot (some t)).length ≤ (Text.stripped t).length := by
  rw [cleanSourceRoot] at hne ⊢
  split
  next hnil =>
    rw [hnil] at hne
    exact absurd rfl hne
  · have hle := (Text.isInfix_trim isSlash (forward (Text.stripped t))).length_le
    rw [forward, List.length_map] at hle
    exact hle

/-- A source root is cleaned to itself exactly when it has no white space at its ends. -/
theorem cleanSourceRoot_self_iff (hsr : Staging.IsSourceRoot sr) :
    cleanSourceRoot (some sr) = sr ↔ Text.stripped sr = sr := by
  constructor
  · intro h
    by_cases hdefault : sr = defaultSourceRoot
    · rw [hdefault]
      decide
    · have hle := length_cleanSourceRoot_le sr (by rwa [h])
      rw [h] at hle
      exact (Text.isInfix_stripped sr).eq_of_length_le hle
  · intro h
    have hclean : Staging.bare (forward (Text.stripped sr)) = sr := by
      rw [h, forward_eq_self hsr.noBackslash, hsr.bare]
    rw [cleanSourceRoot, Option.getD_some, hclean]
    cases sr with
    | nil => exact absurd rfl hsr.nonempty
    | cons c cs => rfl

/-- The layout around a module that is named. -/
theorem around_modulePath (hsr : Staging.IsSourceRoot sr)
    (hv : Staging.sourceRoot? (modulePath sr) = some v) : around (modulePath sr) none =
      { sourceRoot := cleanSourceRoot (some v), host := some (modulePath sr) } := by
  have hlead : (forward (modulePath sr)).dropWhile isSlash = modulePath sr := by
    rw [forward_modulePath hsr, Text.dropWhile_eq_self (head_modulePath hsr)]
  rw [around]
  rw [hlead, hv]
  rfl

/-- What is read off the path of a module is cleaned to its source root exactly when it is the whole of
it, without white space at an end. -/
theorem cleanSourceRoot_beginning_iff (hsr : Staging.IsSourceRoot sr) (hbegins : v <+: sr)
    (hdefault : v ≠ sr → sr ≠ defaultSourceRoot) :
    cleanSourceRoot (some v) = sr ↔ v = sr ∧ Text.stripped sr = sr := by
  by_cases hwhole : v = sr
  · rw [hwhole, cleanSourceRoot_self_iff hsr]
    simp
  · refine iff_of_false (fun h => ?_) fun h => hwhole h.1
    have hlt : v.length < sr.length :=
      lt_of_le_of_ne hbegins.length_le fun he => hwhole (hbegins.eq_of_length he)
    have hle := length_cleanSourceRoot_le v (by rw [h]; exact hdefault hwhole)
    have hstripped := (Text.isInfix_stripped v).length_le
    rw [h] at hle
    omega

/-! ### Both ways -/

/-- Two layouts of which one stages and extends what the other does. -/
structure Agree (l l' : Layout) : Prop where
  sourceRoot : l'.sourceRoot = l.sourceRoot
  appDirectory : l'.appDirectory = l.appDirectory
  template : l'.template = l.template
  host : l'.host = l.host
  -- Artifacts are written to the same files, in every workspace.
  staged : ∀ as v, Staging.stage l'.sourceRoot as v = Staging.stage l.sourceRoot as v

theorem agree_iff {l l' : Layout} (hhost : l'.host = l.host) :
    Agree l l' ↔ l'.sourceRoot = l.sourceRoot := by
  refine ⟨Agree.sourceRoot, fun h => ?_⟩
  have happ : l'.appDirectory = l.appDirectory := by rw [appDirectory, appDirectory, h]
  exact ⟨h, happ, by rw [template, template, happ], hhost, fun as v => by rw [h]⟩

/-- **Naming the module that the manifest leads to finds the same layout exactly when no directory of the
source root but the first has the name of the application directory, and the source root has no white
space at its ends**, unless the component beside it cannot be looked up.  The host is the module either
way. -/
theorem find_named_iff (hload : Manifest.load w = .ok m)
    (hgiven : m.given? project = some (given.map Text.wide))
    (hmodule : w.exists? (modulePath (cleanSourceRoot given)) = .ok true) :
    ∃ named, find w { host := some (modulePath (cleanSourceRoot given)), project } = .ok named ∧
      named.host = some (modulePath (cleanSourceRoot given)) ∧
      ((∃ f, Barred w (componentPath (cleanSourceRoot given)) f ∧
          find w { project } = .error (.fault f)) ∨
        ∃ found, find w { project } = .ok found ∧ found.sourceRoot = cleanSourceRoot given ∧
          named.host = found.host ∧
          (Agree found named ↔ Staging.appDirectory ∉ (split (cleanSourceRoot given)).tail ∧
            Text.stripped (cleanSourceRoot given) = cleanSourceRoot given)) := by
  have hsr := Staging.isSourceRoot_clean given
  generalize hroot : cleanSourceRoot given = sr at hsr hmodule
  have hne : modulePath sr ≠ [] := by simp [modulePath, partOf, hsr.nonempty]
  obtain ⟨v, hv, hbegins, hiff⟩ := sourceRoot?_modulePath hsr
  have hnamed : find w { host := some (modulePath sr), project } =
      .ok { sourceRoot := cleanSourceRoot (some v), host := some (modulePath sr) } := by
    have hhint : Text.nonEmpty (some (modulePath sr)) = some (modulePath sr) := by
      rw [Text.nonEmpty, Option.filter_some, if_pos (by simpa using hne)]
    rw [find, hhint]
    exact congrArg Except.ok (around_modulePath hsr hv)
  have hfind : find w { project } = (below w sr).mapError .fault := by
    rw [find]
    simp [Text.nonEmpty, hload, Except.bind, ofManifest_of_given hgiven, hroot]
  refine ⟨_, hnamed, rfl, ?_⟩
  cases hcomponent : w.exists? (componentPath sr) with
  | error f =>
    have hbarred := exists?_fault_iff.mp hcomponent
    have hbelow : below w sr = .error f :=
      below_fault_iff.mpr (.inr ⟨fun f' h => by simp [exists?_fault_iff.mpr h] at hmodule, hbarred⟩)
    exact .inl ⟨f, hbarred, by rw [hfind, hbelow]; rfl⟩
  | ok there =>
    obtain ⟨found, hbelow, hfound, hmod, hhost⟩ := below_of_there hmodule hcomponent
    have hhost' : found.host = some (modulePath sr) := by rw [hhost, hmod]; rfl
    refine .inr ⟨found, by rw [hfind, hbelow]; rfl, hfound, hhost'.symm, ?_⟩
    rw [agree_iff hhost'.symm, hfound, ← hiff]
    refine cleanSourceRoot_beginning_iff hsr hbegins fun hne => ?_
    -- The default source root is a single directory.
    rintro rfl
    exact hne (hiff.mpr (by decide))

/-- A workspace with a single project, below a directory, and its module. -/
def projectBelow (directory : Text) : Workspace :=
  let manifest := "\x7b\"defaultProject\": \"p\", \"projects\": \x7b\"p\": \x7b\"sourceRoot\": \"lib/".toList ++
    directory ++ "/src\"\x7d\x7d\x7d".toList
  { root := []
    disk := .directory [(Manifest.file, .file (Utf8.encode manifest)), ("lib".toList, .directory
      [(directory, .directory [("src".toList, .directory [(Staging.appDirectory, .directory
        [("app.module.ts".toList, .file (Utf8.encode []))])])])])] }

/-- A source root without the name of the application directory. -/
theorem find_named_demo : ∃ found named, find (projectBelow "demo".toList) {} = .ok found ∧
    find (projectBelow "demo".toList) { host := some "lib/demo/src/app/app.module.ts".toList } =
      .ok named ∧ Agree found named := by
  have h : (Manifest.load (projectBelow "demo".toList)).toOption.bind (Manifest.given? · none) =
      some ((some "lib/demo/src".toList).map Text.wide) := by decide +kernel
  have hclean : cleanSourceRoot (some "lib/demo/src".toList) = "lib/demo/src".toList := by decide +kernel
  cases hload : Manifest.load (projectBelow "demo".toList) with
  | error e =>
    rw [hload] at h
    cases h
  | ok m =>
    rw [hload] at h
    have hgiven : m.given? none = some ((some "lib/demo/src".toList).map Text.wide) := h
    have hmodule : (projectBelow "demo".toList).exists?
        (modulePath (cleanSourceRoot (some "lib/demo/src".toList))) = .ok true := by decide +kernel
    obtain ⟨named, hnamed, -, ⟨f, hbarred, -⟩ | ⟨found, hfound, -, -, hiff⟩⟩ :=
      find_named_iff hload hgiven hmodule
    · have hcomponent : (projectBelow "demo".toList).exists?
          (componentPath (cleanSourceRoot (some "lib/demo/src".toList))) = .ok false := by
        decide +kernel
      rw [exists?_fault_iff.mpr hbarred] at hcomponent
      cases hcomponent
    · rw [hclean] at hnamed hiff
      exact ⟨found, named, hfound, hnamed, hiff.mpr (by decide +kernel)⟩

/-- Below a directory with that name, what is named lies in a source root that ends before it. -/
theorem find_named_nested : ∃ found named, find (projectBelow "app".toList) {} = .ok found ∧
    find (projectBelow "app".toList) { host := some "lib/app/src/app/app.module.ts".toList } =
      .ok named ∧ found.host = named.host ∧ found.sourceRoot = "lib/app/src".toList ∧
    named.sourceRoot = "lib".toList ∧ ¬ Agree found named := by
  let found : Layout :=
    { sourceRoot := "lib/app/src".toList, module := some "lib/app/src/app/app.module.ts".toList
      host := some "lib/app/src/app/app.module.ts".toList }
  let named : Layout :=
    { sourceRoot := "lib".toList, host := some "lib/app/src/app/app.module.ts".toList }
  refine ⟨found, named, by decide +kernel, by decide +kernel, rfl, rfl, rfl, fun hagree => ?_⟩
  exact absurd hagree.sourceRoot (by decide)

end Graft.Layout
