import Graft.Layout
import Graft.Proofs.Workspace.Addressing
import Graft.Proofs.Workspace.Files

/-
The parts of a project, by their names in the application directory.

* `Layout.part l name` — the path of a part;
* `locate_part` — a part lies in the application directory, under its own name;
* `load_eq_ok` — a manifest is loaded when its text is read and makes one;
* `Manifest.given?`, `ofManifest_eq_ok` — the source root that a manifest gives, and the layout below it;
* `host_of_find` — the host is a part, unless it was named;
* `find_again` — **a layout that was found is found again while the manifest reads the same and the module
  and the component are as much there as before**.
-/
namespace Graft

open Graft.Path Workspace

/-- What a manifest gives for the source root of a project, or else of the default one. -/
def Manifest.given? (m : Manifest) (project : Option Text) : Option (Option Wide) :=
  ((((Text.nonEmpty project).map Text.wide).or m.defaultProject).filter fun n => !n.isEmpty).bind
    fun n => Table.get? n m.projects

namespace Layout

variable {w w' : Workspace} {layout : Layout} {name : Text} {l : Location}

/-- The path of a part in the application directory. -/
def part (layout : Layout) (name : Text) : Text := layout.appDirectory ++ '/' :: name

theorem template_eq (layout : Layout) : layout.template = layout.part "app.component.html".toList :=
  rfl

theorem appDirectory_ne_nil (layout : Layout) : layout.appDirectory ≠ [] := by
  have hkeep : Staging.appDirectory ∈ [layout.sourceRoot, Staging.appDirectory].filter
      fun p => !p.isEmpty := List.mem_filter.mpr ⟨by simp, by decide⟩
  refine join_ne_nil (fun s hs => ?_) (List.ne_nil_of_mem hkeep)
  simpa using (List.mem_filter.mp hs).2

/-- A part lies in the application directory, under its own name. -/
theorem locate_part (hname : IsName name) (hback : '\\' ∉ name)
    (h : w.locate (layout.part name) = .ok l) :
    l = Path.locate w.root (forward layout.appDirectory) ++ [name] := by
  have hforward : forward (layout.part name) = forward layout.appDirectory ++ '/' :: name := by
    rw [part, forward, List.map_append, List.map_cons, ← forward, ← forward, forward_eq_self hback]
    rfl
  have hne : forward layout.appDirectory ≠ [] := by
    simpa [forward] using appDirectory_ne_nil layout
  have hsplit : split name = [name] := by
    have hsingle : split (join [name]) = [name] :=
      split_join (by simpa using hname.noSlash) (by simp)
    rwa [join_singleton] at hsingle
  have hnames : ∀ s ∈ split name, IsName s := by
    rw [hsplit]
    exact fun s hs => List.mem_singleton.mp hs ▸ hname
  rw [eq_locate_of_locateFrom h, hforward, locate_append_slash w.root hne hnames, hsplit]

/-- The manifest lies in the root, under its own name. -/
theorem locate_manifest (h : w.locate Manifest.file = .ok l) :
    l = collapse true w.root ++ [Manifest.file] := by
  have hsplit : split Manifest.file = [Manifest.file] := by decide
  have hnames : ∀ s ∈ split Manifest.file, IsName s := by
    rw [hsplit]
    exact fun s hs => List.mem_singleton.mp hs ▸ (by decide)
  rw [eq_locate_of_locateFrom h, forward_eq_self (by decide), locate_relative _ (by decide),
    collapse_append_names hnames, hsplit]

/-- A part lies apart from the manifest, and from a part with another name. -/
theorem locate_part_ne {other : Text} (hname : IsName name) (hback : '\\' ∉ name)
    (h : w.locate (layout.part name) = .ok l) (hother : other ≠ name) (m : Location) :
    l ≠ m ++ [other] := by
  rw [locate_part hname hback h]
  intro heq
  exact hother (List.singleton_inj.mp (List.append_inj' heq rfl).2).symm

/-- Where one part of a project is there, the parts are looked up later as they were. -/
theorem barrier?_part {other : Text} {m : Location} (hlater : Later w w') (hname : IsName name)
    (hback : '\\' ∉ name) (hl : w.locate (layout.part name) = .ok l) (hthere : (w.held l).isSome = true)
    (hother : IsName other) (hback' : '\\' ∉ other) (hm : w.locate (layout.part other) = .ok m) :
    w'.barrier? m = w.barrier? m := by
  obtain ⟨octets, hheld⟩ := Option.isSome_iff_exists.mp hthere
  obtain ⟨r, hvisit⟩ := Tree.contents_eq_ok.mp (held_eq_some.mp hheld)
  rw [locate_part hname hback hl] at hvisit
  have hparent := (Tree.eq_nil_or_parent hvisit).resolve_left (by simp)
  rw [Tree.parent_concat] at hparent
  obtain ⟨es, a, hup⟩ := hparent
  have hup' : w.disk.visit m.parent = .ok (.directory es a) := by
    rw [locate_part hother hback' hm, Tree.parent_concat]
    exact hup
  exact hlater.barrier?_eq hup'

/-! ### The layout found again -/

theorem load_eq_ok {m : Manifest} : Manifest.load w = .ok m ↔
    ∃ t, w.read Manifest.file = .ok t ∧ Manifest.ofText w.limits.nesting t = .ok m := by
  rw [Manifest.load]
  cases hread : w.read Manifest.file with
  | ok t => simp [exists?_of_read hread]
  | error e =>
    cases w.exists? Manifest.file with
    | error f => simp
    | ok there => cases there <;> cases e <;> simp

theorem cleanSourceRoot_ne_nil (t : Option Text) : cleanSourceRoot t ≠ [] := by
  rw [cleanSourceRoot]
  split
  · decide
  next hne => exact hne

theorem appDirectory_eq {sr : Text} (hsr : sr ≠ []) (h : layout.sourceRoot = sr) :
    layout.appDirectory = sr ++ '/' :: Staging.appDirectory := by
  have hkeep : [sr, Staging.appDirectory].filter (fun p => !p.isEmpty) = [sr, Staging.appDirectory] := by
    refine List.filter_eq_self.mpr fun p hp => ?_
    rcases List.mem_cons.mp hp with rfl | hp
    · simpa using hsr
    · rw [List.mem_singleton.mp hp]
      decide
  rw [appDirectory, h, Staging.joined, hkeep, ← List.singleton_append, join_append (by simp) (by simp),
    join_singleton, join_singleton]

theorem ifFile_again {path : Text} (h : w'.exists? path = w.exists? path) :
    ifFile w' path = ifFile w path := by
  rw [ifFile, ifFile, h]

theorem sourceRoot_of_below {sr : Text} (h : below w sr = .ok layout) : layout.sourceRoot = sr := by
  rw [below] at h
  dsimp only [bind, Except.bind, pure, Except.pure] at h
  split at h
  · cases h
  · split at h
    · cases h
    · rw [← Except.ok.inj h]

theorem below_again {sr : Text} (hsr : sr ≠ []) (h : below w sr = .ok layout)
    (hmodule : w'.exists? (layout.part "app.module.ts".toList) =
      w.exists? (layout.part "app.module.ts".toList))
    (hcomponent : w'.exists? (layout.part "app.component.ts".toList) =
      w.exists? (layout.part "app.component.ts".toList)) : below w' sr = .ok layout := by
  have hroot := sourceRoot_of_below h
  have hpart (name : Text) : (sr ++ '/' :: Staging.appDirectory) ++ '/' :: name = layout.part name := by
    rw [part, appDirectory_eq hsr hroot]
  have hmodule' := ifFile_again hmodule
  have hcomponent' := ifFile_again hcomponent
  rw [← hpart] at hmodule' hcomponent'
  rw [← h, below, below]
  rw [show "/app.module.ts".toList = '/' :: "app.module.ts".toList from rfl,
    show "/app.component.ts".toList = '/' :: "app.component.ts".toList from rfl, hmodule', hcomponent']

theorem eq_of_ifFile {path p : Text} (h : ifFile w path = .ok (some p)) : p = path := by
  rw [ifFile] at h
  cases hthere : w.exists? path with
  | error f =>
    rw [hthere] at h
    cases h
  | ok there =>
    rw [hthere] at h
    cases there
    · cases h
    · exact (Option.some.inj (Except.ok.inj h)).symm

theorem encodable_eq_ok {given : Option Wide} {t : Option Text} :
    encodable w given = .ok t ↔ given = t.map Text.wide := by
  cases given with
  | none => cases t <;> simp [encodable]
  | some g =>
    rw [encodable]
    cases hg : g.toText with
    | ok u =>
      obtain rfl := Wide.toText_eq_ok_iff.mp hg
      cases t with
      | none => simp
      | some t => simp [Text.wide_inj]
    | error u =>
      refine iff_of_false ?_ fun hgiven => ?_
      · cases g.strays? <;> simp
      · cases t with
        | none => cases hgiven
        | some t =>
          obtain rfl := Option.some.inj hgiven
          rw [Text.toText_wide] at hg
          cases hg

/-- The layout of a project lies below the source root that the manifest gives. -/
theorem ofManifest_eq_ok {m : Manifest} {project : Option Text} : ofManifest w m project = .ok layout ↔
    ∃ given, m.given? project = some (given.map Text.wide) ∧
      below w (cleanSourceRoot given) = .ok layout := by
  rw [ofManifest, Manifest.given?]
  split
  next hnone => simp [hnone]
  next given hgiven =>
    simp only [hgiven, Option.some.injEq]
    cases hencodable : encodable w given with
    | error f =>
      refine iff_of_false (by simp [Except.bind, Except.mapError]) ?_
      rintro ⟨t, rfl, -⟩
      rw [encodable_eq_ok.mpr rfl] at hencodable
      cases hencodable
    | ok t =>
      obtain rfl := encodable_eq_ok.mp hencodable
      simp only [Except.bind]
      constructor
      · intro h
        refine ⟨t, rfl, ?_⟩
        cases hbelow : below w (cleanSourceRoot t) with
        | error f =>
          rw [hbelow] at h
          cases h
        | ok layout' =>
          rw [hbelow] at h
          rw [Except.ok.inj h]
      · rintro ⟨t', ht, hbelow⟩
        have hsame : t = t' := by
          cases t <;> cases t' <;> simp_all [Text.wide_inj]
        rw [hsame, hbelow]
        rfl

/-- The host below a source root is the module or the component. -/
theorem host_of_below {sr : Text} (hsr : sr ≠ []) (h : below w sr = .ok layout) {host : Text}
    (hhost : layout.host = some host) : host = layout.part "app.module.ts".toList ∨
      host = layout.part "app.component.ts".toList := by
  have hpart (name : Text) : (sr ++ '/' :: Staging.appDirectory) ++ '/' :: name = layout.part name := by
    rw [part, appDirectory_eq hsr (sourceRoot_of_below h)]
  rw [← hpart, ← hpart]
  rw [below] at h
  dsimp only [bind, Except.bind, pure, Except.pure] at h
  split at h
  · cases h
  next module hmodule =>
    split at h
    · cases h
    next component hcomponent =>
      rw [← Except.ok.inj h] at hhost
      rcases Option.or_eq_some_iff.mp hhost with rfl | ⟨-, rfl⟩
      · exact .inl (eq_of_ifFile hmodule)
      · exact .inr (eq_of_ifFile hcomponent)

/-- Where the host is no part, the layout is found without the manifest. -/
theorem host_of_find {hints : Hints} (h : find w hints = .ok layout) {host : Text}
    (hhost : layout.host = some host) : (∀ v, find v hints = .ok layout) ∨
      host = layout.part "app.module.ts".toList ∨ host = layout.part "app.component.ts".toList := by
  rw [find] at h
  cases hnamed : Text.nonEmpty hints.host with
  | some named =>
    rw [hnamed] at h
    refine .inl fun v => ?_
    rw [find, hnamed]
    exact h
  | none =>
    rw [hnamed] at h
    dsimp only at h
    by_cases hno : hints.noHost = true
    · rw [if_pos hno] at h
      rw [← Except.ok.inj h] at hhost
      cases hhost
    · rw [if_neg hno] at h
      cases hload : Manifest.load w with
      | error e =>
        rw [hload] at h
        cases h
      | ok m =>
        rw [hload] at h
        obtain ⟨given, -, hbelow⟩ := ofManifest_eq_ok.mp h
        exact .inr (host_of_below (cleanSourceRoot_ne_nil _) hbelow hhost)

/-- **A layout that was found is found again** while the manifest reads the same and the module and the
component are as much there as before. -/
theorem find_again {hints : Hints} (h : find w hints = .ok layout) (hlimits : w'.limits = w.limits)
    (hmanifest : ∀ t, w.read Manifest.file = .ok t → w'.read Manifest.file = .ok t)
    (hmodule : w'.exists? (layout.part "app.module.ts".toList) =
      w.exists? (layout.part "app.module.ts".toList))
    (hcomponent : w'.exists? (layout.part "app.component.ts".toList) =
      w.exists? (layout.part "app.component.ts".toList)) : find w' hints = .ok layout := by
  rw [find] at h ⊢
  cases hhost : Text.nonEmpty hints.host with
  | some host =>
    rw [hhost] at h
    exact h
  | none =>
    rw [hhost] at h
    dsimp only at h ⊢
    by_cases hno : hints.noHost = true
    · rw [if_pos hno] at h ⊢
      exact h
    · rw [if_neg hno] at h ⊢
      cases hload : Manifest.load w with
      | error e =>
        rw [hload] at h
        cases h
      | ok m =>
        obtain ⟨t, hread, hof⟩ := load_eq_ok.mp hload
        rw [load_eq_ok.mpr ⟨t, hmanifest t hread, hlimits ▸ hof⟩]
        rw [hload] at h
        obtain ⟨given, hgiven, hbelow⟩ := ofManifest_eq_ok.mp h
        exact ofManifest_eq_ok.mpr
          ⟨given, hgiven, below_again (cleanSourceRoot_ne_nil _) hbelow hmodule hcomponent⟩

end Layout
end Graft

