import Graft.Proofs.Integration.Element
import Graft.Proofs.Integration.Frame
import Graft.Proofs.Staging.Repetition

/-
Running an integration once more.

* `Repeatable base w r` — no artifact was written to a file that the integration itself reads, and the
  class can be registered in its host;
* `Repeats r after out` — a run that stages what a report stages, and changes nothing;
* `Enrolled.settles` — the host needs nothing more, whatever was shown in the template;
* `wire_of_settled` — a wiring with nothing to insert and nothing to show;
* `integrate_repeats_iff` — **an integration that registered a class changes nothing when it is run again,
  unless the name of a file was too long to be written**.

Design notes: the second run starts from the workspace that the first run left, which is later than the
one its host was read in, and differs from it at the host and the template only.  Both of these are read
and found in order.  The two may be one file, for a host can be named at will.
-/
namespace Graft.Workspace

variable {w w' : Workspace} {path old t : Text} {l : Location}

/-- A file is written anew where one was. -/
theorem Rewritten.isSome_eq (h : Rewritten w path old t w') (l : Location) :
    (w'.held l).isSome = (w.held l).isSome := by
  by_cases hsame : w'.held l = w.held l
  · rw [hsame]
  · obtain ⟨m, hm, hthere, -⟩ := h.writes
    obtain rfl := Except.ok.inj (hm.symm.trans (h.located hsame))
    rw [hthere, h.held_isSome hthere]

end Graft.Workspace

namespace Graft.Integration

open Staging Registration Script Workspace

variable {base : Location} {w staging after v : Workspace} {o : Options} {layout : Layout}
  {r r' : Report} {l : Location}

/-! ### What the first run leaves -/

theorem Enrolled.later {q : Request} {g : Registered} {source u : Text}
    (h : Enrolled w q g source u after) : Later w after ∧ Later after w := by
  rcases h.effect with ⟨-, -, rfl⟩ | ⟨-, -, hrewritten⟩
  · exact ⟨.refl _, .refl _⟩
  · exact ⟨hrewritten.later, hrewritten.earlier⟩

theorem Enrolled.isSome_eq {q : Request} {g : Registered} {source u : Text}
    (h : Enrolled w q g source u after) (l : Location) :
    (after.held l).isSome = (w.held l).isSome := by
  rcases h.effect with ⟨-, -, rfl⟩ | ⟨-, -, hrewritten⟩
  · rfl
  · exact hrewritten.isSome_eq l

/-- The host holds the patched text, which needs nothing more. -/
theorem Enrolled.settles {q : Request} {g : Registered} {source u : Text}
    (h : Enrolled w q g source u after) (hsource : Regular source) (hs : IsSymbol q.symbol)
    (hp : IsSpecifier q.importPath) : after.read q.target = .ok u ∧ plan u q = .ok [] ∧
      ∀ tag, IsTag tag → plan (withElement tag u) q = .ok [] := by
  obtain ⟨u', hu', hbinds, hlists, hplan, -⟩ := patched_idempotent hsource hs hp h.planned
  obtain rfl := Except.ok.inj (h.patched.symm.trans hu')
  refine ⟨?_, hplan, fun tag htag =>
    plan_withElement htag (hsource.closed_patched hs hp h.patched) hbinds hlists⟩
  rcases h.effect with ⟨-, rfl, rfl⟩ | ⟨-, -, hrewritten⟩
  · exact h.read
  · exact hrewritten.read_self rfl

/-- Once it was shown, a component needs no showing. -/
theorem Shown.settles {template tag : Text} {marker : Option Text}
    (h : Shown w template tag marker after) : Settled after template tag := by
  cases h with
  | settled hsettled => exact hsettled
  | added _ hrewritten =>
    have hread := hrewritten.read_self rfl
    refine ⟨⟨true, exists?_of_read hread⟩, fun text htext => .inl ?_⟩
    obtain rfl := Except.ok.inj (hread.symm.trans htext)
    exact displays_withElement _ _

theorem Shown.later {template tag : Text} {marker : Option Text}
    (h : Shown w template tag marker after) : Later w after ∧ Later after w := by
  cases h with
  | settled => exact ⟨.refl _, .refl _⟩
  | added _ hrewritten => exact ⟨hrewritten.later, hrewritten.earlier⟩

/-- What was shown leaves the host in order, also when it is the template. -/
theorem Shown.read_host {template tag host u : Text} {marker : Option Text}
    (h : Shown w template tag marker after) (hread : w.read host = .ok u) :
    after.read host = .ok u ∨ after.read host = .ok (withElement tag u) := by
  cases h with
  | settled => exact .inl hread
  | added _ hrewritten =>
    by_cases hsame : w.locate host = w.locate template
    · obtain rfl := read_unique hsame hread hrewritten.read
      exact .inr (hrewritten.read_self hsame)
    · refine .inl ((hrewritten.later.read_congr fun l hl => ?_).mpr hread)
      by_contra hne
      exact hsame (hl.trans (hrewritten.located hne).symm)

namespace Wiring

/-- Wiring takes nothing away, and what was there before could be written back. -/
theorem later (h : Wiring base w o layout r after) : Later w after ∧ Later after w := by
  obtain ⟨hthere, hback⟩ := h.enrolled.later
  have hshown := h.shown
  split at hshown
  · exact ⟨hthere.trans hshown.later.1, hshown.later.2.trans hback⟩
  · rw [hshown.2]
    exact ⟨hthere, hback⟩

theorem isSome_eq (h : Wiring base w o layout r after) (l : Location) :
    (after.held l).isSome = (w.held l).isSome := by
  rw [← h.enrolled.isSome_eq l]
  rcases h.template_effect with ⟨-, hsame⟩ | ⟨-, _, _, -, hrewritten⟩
  · rw [hsame]
  · exact hrewritten.isSome_eq l

/-- Only the host and the template are written. -/
theorem held_eq (h : Wiring base w o layout r after) (hhost : w.locate h.request.target ≠ .ok l)
    (htemplate : w.locate layout.template ≠ .ok l) : after.held l = w.held l := by
  have hbetween : h.between.held l = w.held l := by
    by_contra hne
    exact hhost (h.enrolled.located hne).2
  rw [← hbetween]
  by_contra hne
  exact htemplate (h.located hne).2

/-- The host that was left needs nothing more. -/
theorem host_settles (h : Wiring base w o layout r after) (hsource : Regular h.source)
    (hs : IsSymbol h.request.symbol) (hp : IsSpecifier h.request.importPath) :
    ∃ text, after.read h.request.target = .ok text ∧ plan text h.request = .ok [] := by
  obtain ⟨hread, hplan, hmore⟩ := h.enrolled.settles hsource hs hp
  have hshown := h.shown
  split at hshown
  · rcases hshown.read_host hread with hread | hread
    · exact ⟨_, hread, hplan⟩
    · exact ⟨_, hread, hmore _ (Name.isTag_tag _ _)⟩
  · rw [← hshown.2] at hread
    exact ⟨_, hread, hplan⟩

/-- The template that was left needs no element. -/
theorem template_settles (h : Wiring base w o layout r after) (hmark : o.usageMarker = true) :
    Settled after layout.template (Name.tag h.primary.artifact.path o.tagPrefix) := by
  have hshown := h.shown
  rw [if_pos hmark] at hshown
  exact hshown.settles

end Wiring

/-! ### The second run -/

/-- A run that stages what a report stages, and changes nothing. -/
structure Repeats (r : Report) (after : Workspace) (out : Outcome) (r' : Report) : Prop where
  report : out.report = .ok r'
  -- The same files are written, and the same are not.
  staged : r'.staged = r.staged.map Staged.again
  patched : .patched ∈ r'.visited
  -- The host is not changed.
  registered : ∃ g, r'.registered = some g ∧ g.changed = false
  -- The template gets no other element.
  marker : r'.usageMarker = none
  -- Every file is left as it is.
  held : ∀ l, out.workspace.held l = after.held l

theorem Settled.again {template tag : Text} (h : Settled w template tag) (halike : Alike w v) :
    Settled v template tag where
  there := by
    rw [halike.exists?_eq]
    exact h.there
  displayed text hread := by
    refine (h.displayed text (halike.read_eq_ok.mp hread)).imp_right ?_
    rintro ⟨e, hbarred⟩
    exact ⟨e, halike.later.write_stuck hbarred⟩

/-- A template that gets no element is left alone, and so is the report but for a warning. -/
theorem display_of_settled {primary : Staged} {p : Text}
    (h : Settled w layout.template (Name.tag primary.artifact.path p)) (r : Report) :
    ∃ warnings, display w layout primary p r = (.ok { r with warnings }, w) := by
  obtain ⟨there, hthere⟩ := h.there
  unfold display
  simp only [hthere]
  cases there with
  | false => exact ⟨r.warnings, rfl⟩
  | true =>
    dsimp only
    cases hread : w.read layout.template with
    | ok text =>
      dsimp only
      split
      · exact ⟨r.warnings, rfl⟩
      next hmissing =>
        obtain ⟨e, hbarred⟩ := (h.displayed text hread).resolve_left hmissing
        rw [hbarred]
        exact ⟨_, rfl⟩
    | error e =>
      cases e with
      | path e => exact ⟨_, rfl⟩
      | fault f =>
        -- A file that is there can be located.
        obtain ⟨hnulled, -⟩ := read_fault_iff.mp hread
        rw [exists?_fault_iff.mpr (.inl ⟨hnulled, rfl⟩)] at hthere
        cases hthere

/-- A wiring with nothing to insert and nothing to show. -/
theorem wire_of_settled {primary : Staged} {path script text : Text} {q : Request}
    (hhost : layout.host = some q.target) (hprimary : r.primary = some primary)
    (hscript : script? r.staged primary = some (path, script))
    (hq : request? base q.target primary path script = some q)
    (hthere : w.exists? q.target = .ok true) (hread : w.read q.target = .ok text)
    (hplan : plan text q = .ok []) (hmarker : r.usageMarker = none)
    (hsettled : o.usageMarker = true →
      Settled w layout.template (Name.tag primary.artifact.path o.tagPrefix)) :
    ∃ r', (wire base w o layout r).report = .ok r' ∧ (wire base w o layout r).workspace = w ∧
      r'.staged = r.staged ∧ .patched ∈ r'.visited ∧ r'.usageMarker = none ∧
      ∃ g, r'.registered = some g ∧ g.changed = false := by
  have hinto : wire base w o layout r = wireInto base w o layout q.target primary path script r := by
    unfold wire
    simp only [hhost, hprimary, hscript, hthere, Option.bind_some, Option.map_some]
  rw [hinto]
  unfold wireInto
  simp only [hq, register_of_nil hread hplan]
  by_cases hmark : o.usageMarker = true
  · obtain ⟨warnings, hdisplay⟩ := display_of_settled (hsettled hmark)
      ({ r with registered := some ⟨q.target, q.role, []⟩ }.reach .patched)
    simp only [if_pos hmark, hdisplay]
    exact ⟨_, rfl, trivial, rfl, by simp [Report.reach], hmarker, _, rfl, rfl⟩
  · simp only [if_neg hmark]
    exact ⟨_, rfl, trivial, rfl, by simp [Report.reach], hmarker, _, rfl, rfl⟩

theorem find_ok_again (staged : List Staged) :
    (staged.map Staged.again).find? Staged.ok = (staged.find? Staged.ok).map Staged.again := by
  have hok : Staged.ok ∘ Staged.again = Staged.ok := funext Staged.again_ok
  rw [List.find?_map, hok]

/-- The script of a component is where it was. -/
theorem script?_again (staged : List Staged) (primary : Staged) :
    script? (staged.map Staged.again) primary.again = script? staged primary := by
  rw [script?, script?, List.filter_map, List.findSome?_map]
  have hsame : (fun s : Staged => s.ok && s.artifact.id == primary.again.artifact.id) ∘ Staged.again =
      fun s => s.ok && s.artifact.id == primary.artifact.id := by
    funext s
    rw [Function.comp_apply, Staged.again_ok]
    rfl
  rw [hsame]
  congr 1
  funext s
  rw [Function.comp_apply, Staged.again_pathOf?]
  rfl

/-- What was wired needs no wiring. -/
theorem Wiring.again (h : Wiring base staging o layout r after) (hsource : Regular h.source)
    (hs : IsSymbol h.request.symbol) (hp : IsSpecifier h.request.importPath) (halike : Alike after v)
    {r₀ : Report} (hprimary : r₀.primary = some h.primary.again)
    (hstaged : r₀.staged = r.staged.map Staged.again) (hmarker : r₀.usageMarker = none) :
    ∃ r', Repeats r after (wire base v o layout r₀) r' := by
  obtain ⟨text, hread, hplan⟩ := h.host_settles hsource hs hp
  have hscript : script? r₀.staged h.primary.again = some (h.path, h.script) := by
    rw [hstaged, script?_again]
    exact h.found
  have hthere : v.exists? h.request.target = .ok true := by
    rw [halike.exists?_eq]
    exact h.later.1.exists? h.there
  obtain ⟨r', hr', hw, hfiles, hpatched, hmark, hreg⟩ := wire_of_settled (o := o) h.host hprimary
    hscript h.requested hthere (halike.read_eq_ok.mpr hread) hplan hmarker
    fun hmark => (h.template_settles hmark).again halike
  refine ⟨r', hr', hfiles.trans hstaged, hpatched, hreg, hmark, fun l => ?_⟩
  rw [hw]
  exact halike.held l

/-! ### Both runs -/

/-- The files that an integration itself reads: the manifest, the host, and the module, the component
and the template of the application directory. -/
def readPaths (layout : Layout) : List Text :=
  layout.host.toList ++ [Manifest.file, layout.part "app.module.ts".toList,
    layout.part "app.component.ts".toList, layout.template]

/-- What an integration with this report must be like to be run again without effect. -/
structure Repeatable (base : Location) (w : Workspace) (r : Report) : Prop where
  -- The host was regular.
  host : ∀ host ∈ r.host, ∀ source, w.read host = .ok source → Regular source
  -- The class can be bound.
  symbol : ∀ path q, requested base r = some (path, q) → q.symbol ≠ "type".toList
  specifier : ∀ path q, requested base r = some (path, q) → IsSpecifier q.importPath
  -- No artifact was written to a file that is read.
  free : ∀ layout ∈ r.layout, ∀ p ∈ readPaths layout, ∀ f ∈ r.written, ∀ l,
    w.locate p = .ok l → w.locate f.path ≠ .ok l

theorem Wiring.requested_eq (h : Wiring base staging o layout r after)
    (hhost : r.host = layout.host) : Integration.requested base r = some (h.path, h.request) := by
  rw [Integration.requested, hhost, h.host, Option.bind_some, h.chosen, Option.bind_some, h.found,
    Option.bind_some, h.requested]
  rfl

/-- The layout is found again in the workspace that is left. -/
theorem Wiring.find_again {hints : Hints} (h : Wiring base staging o layout r after)
    (hlocated : Layout.find w hints = .ok layout) (hrun : IsRun w (Staging.written r.staged) staging)
    (hfree : ∀ p ∈ readPaths layout, ∀ f ∈ r.written, ∀ l, w.locate p = .ok l →
      w.locate f.path ≠ .ok l) : Layout.find after hints = .ok layout := by
  rcases Layout.host_of_find hlocated h.host with halways | hhost
  · exact halways after
  have hlater := hrun.writes.later.trans h.later.1
  have hsame {p : Text} (hp : p ∈ readPaths layout) (l : Location) (hl : w.locate p = .ok l) :
      staging.held l = w.held l := held_of_unstaged hrun fun f hf => hfree p hp f hf l hl
  -- The host was there before, so there is a directory for the other parts.
  obtain ⟨m, hm, -, hthere⟩ := exists?_eq_true.mp h.there
  rw [hrun.locate_eq] at hm
  rw [hsame (by rw [readPaths, h.host]; exact List.mem_cons_self) m hm] at hthere
  have hpart {name : Text} (hp : layout.part name ∈ readPaths layout) (hname : Path.IsName name)
      (hback : '\\' ∉ name) : after.exists? (layout.part name) = w.exists? (layout.part name) := by
    refine hlater.exists?_congr fun l hl => ⟨?_, by rw [h.isSome_eq, hsame hp l hl]⟩
    rcases hhost with hhost | hhost <;> rw [hhost] at hm
    · exact Layout.barrier?_part hlater (by decide) (by decide) hm hthere hname hback hl
    · exact Layout.barrier?_part hlater (by decide) (by decide) hm hthere hname hback hl
  refine Layout.find_again hlocated hlater.limits (fun t hread => ?_)
    (hpart (by simp [readPaths]) (by decide) (by decide))
    (hpart (by simp [readPaths]) (by decide) (by decide))
  refine (hlater.read_congr fun l hl => ?_).mpr hread
  have hl' := Layout.locate_manifest hl
  rw [h.held_eq, hsame (by simp [readPaths]) l hl]
  · -- The host has another name than the manifest.
    rw [hrun.locate_eq]
    rcases hhost with hhost | hhost <;> rw [hhost] <;> intro hat
    · exact Layout.locate_part_ne (by decide) (by decide) hat (by decide) _ hl'
    · exact Layout.locate_part_ne (by decide) (by decide) hat (by decide) _ hl'
  · rw [hrun.locate_eq, Layout.template_eq]
    intro hat
    exact Layout.locate_part_ne (by decide) (by decide) hat (by decide) _ hl'

/-- What was staged is as it was once the component is wired. -/
theorem Wiring.held_of_staged (h : Wiring base staging o layout r after)
    (hrun : IsRun w (Staging.written r.staged) staging)
    (hfree : ∀ p ∈ readPaths layout, ∀ f ∈ r.written, ∀ l, w.locate p = .ok l →
      w.locate f.path ≠ .ok l) : ∀ f ∈ Staging.written r.staged, ∀ l, w.locate f.2.path = .ok l →
      after.held l = staging.held l := by
  intro f hf l hl
  have hwritten : f.2 ∈ r.written := mem_report_written.mpr ⟨f.1, hf⟩
  refine h.held_eq (fun hat => ?_) fun hat => ?_
  · rw [hrun.locate_eq] at hat
    refine hfree _ ?_ f.2 hwritten l hat hl
    rw [readPaths, h.host]
    exact List.mem_cons_self
  · rw [hrun.locate_eq] at hat
    exact hfree _ (by simp [readPaths]) f.2 hwritten l hat hl

theorem integrate_of_find (base : Location) {raw : Text} {artifacts : List Artifact}
    (hparse : Response.parse? raw = some artifacts) (hfind : Layout.find w o.hints = .ok layout) :
    integrate base w o raw = match stage layout.sourceRoot artifacts w with
      | (.error f, w) => ⟨.error f, [], w⟩
      | (.ok files, w) => wire base w o layout
        (staged ({ ({} : Report).reach .generated with artifacts }.reach .parsed) layout files) := by
  rw [integrate, proceed, hparse]
  dsimp only
  rw [place, hfind]
  rfl

/-- **An integration that registered a class changes nothing when it is run again.  Only if the name of a
file was too long to be written, the second run ends in a fault.** -/
theorem integrate_repeats_iff {raw : Text} (hr : (integrate base w o raw).report = .ok r)
    (hpatched : .patched ∈ r.visited) (h : Repeatable base w r) :
    ((∃ r', Repeats r (integrate base w o raw).workspace
        (integrate base (integrate base w o raw).workspace o raw) r') ↔ ∀ f ∈ r.files, ¬ f.Lengthy) ∧
      ((∃ f ∈ r.files, f.Lengthy) → ∃ place,
        (integrate base (integrate base w o raw).workspace o raw).report =
          .error (.barred ⟨.tooLong, place⟩)) := by
  have hreg := (report_orderly (.response raw) hr).registered.mpr hpatched
  have hpursued := integrate_pursued hr
  generalize (integrate base w o raw).workspace = after at hpursued
  cases hpursued with
  | failed layout staged registered marker =>
    rw [registered] at hreg
    cases hreg
  | unwired found host staged registered marker =>
    rw [registered] at hreg
    cases hreg
  | wired found host hstaged primary parsed located wiring =>
    have hrun := stage_writes hstaged
    have hfree := h.free _ found
    have hrequested := wiring.requested_eq host
    have hagain := integrate_of_find base parsed (wiring.find_again located hrun hfree)
    have hlengthy (hlong : ∃ f ∈ r.files, f.Lengthy) : ∃ place,
        (integrate base after o raw).report = .error (.barred ⟨.tooLong, place⟩) := by
      obtain ⟨f, hf, hlong⟩ := hlong
      obtain ⟨s, hs, hfs⟩ := List.mem_flatMap.mp hf
      obtain ⟨place, v, hv⟩ := stage_lengthy hstaged ⟨s, hs, f, hfs, hlong⟩ wiring.later.1
      refine ⟨place, ?_⟩
      rw [hagain, hv]
    refine ⟨⟨?_, fun hfits => ?_⟩, hlengthy⟩
    · rintro ⟨r', hrepeats⟩ f hf hlong
      obtain ⟨place, hfault⟩ := hlengthy ⟨f, hf, hlong⟩
      rw [hrepeats.report] at hfault
      cases hfault
    · have hsymbol : IsSymbol wiring.request.symbol := by
        have hident := isIdentifier_of_request? wiring.requested
        exact ⟨hident.nonempty, hident.chars, h.symbol _ _ hrequested⟩
      have hsource : Regular wiring.source := by
        refine h.host _ (host.trans wiring.host) _
          ((hrun.writes.later.read_congr fun l hl => ?_).mp wiring.enrolled.read)
        refine held_of_unstaged hrun fun f hf => hfree _ ?_ f hf l hl
        rw [readPaths, wiring.host]
        exact List.mem_cons_self
      have hfits' (s : Staged) (hs : s ∈ r.staged) (f : StagedFile) (hf : f ∈ s.files) : ¬ f.Lengthy :=
        hfits f (List.mem_flatMap.mpr ⟨s, hs, hf⟩)
      obtain ⟨v, hv, -, hback⟩ := stage_again hstaged hfits' wiring.later.1
      have halike := alike_of_stage_again hstaged wiring.later.1 (wiring.held_of_staged hrun hfree) hv
        hback
      rw [hagain, hv]
      refine wiring.again hsource hsymbol (h.specifier _ _ hrequested) halike ?_ rfl rfl
      show (r.staged.map Staged.again).find? Staged.ok = _
      rw [find_ok_again, ← primary, wiring.chosen]
      rfl

/-- A host, and a template in the application directory. -/
def shownHost : Workspace :=
  { root := []
    disk := .directory [("m.ts".toList, .file (Utf8.encode hostOnlyText)), ("src".toList, .directory
      [("app".toList, .directory
        [("app.component.html".toList, .file (Utf8.encode "<p></p>".toList))])])] }

/-- The wish to show the component, with a named host. -/
def shownOptions : Options := { hints := { host := some "m.ts".toList }, usageMarker := true }

theorem hostOnlyText_regular : Regular hostOnlyText := by
  have hnone : imports (tokens hostOnlyText) = [] := by decide +kernel
  refine ⟨by decide +kernel, fun s hs => ?_⟩
  rw [hnone] at hs
  cases hs

/-- Whether a script, and nothing else, was written and registered in the named host. -/
def WiredScript (r : Report) : Prop :=
  .patched ∈ r.visited ∧ r.layout = some { sourceRoot := "src".toList, host := some "m.ts".toList } ∧
    r.host = some "m.ts".toList ∧ requested [] r = some ("src/app/w.ts".toList, scriptRequest) ∧
    r.written.map StagedFile.path = ["src/app/w.ts".toList]

instance (r : Report) : Decidable (WiredScript r) := inferInstanceAs (Decidable (_ ∧ _))

theorem WiredScript.repeatable (h : WiredScript r) : Repeatable [] shownHost r := by
  obtain ⟨-, hlayout, hhost, hrequested, hwritten⟩ := h
  have hread : shownHost.read "m.ts".toList = .ok hostOnlyText := by decide +kernel
  refine ⟨fun host hhost' source hsource => ?_, fun path q hq => ?_, fun path q hq => ?_,
    fun layout hlayout' p hp f hf l hl => ?_⟩
  · obtain rfl := Option.some.inj (hhost.symm.trans hhost')
    obtain rfl := Except.ok.inj (hread.symm.trans hsource)
    exact hostOnlyText_regular
  · obtain ⟨-, rfl⟩ := Prod.mk.inj (Option.some.inj (hrequested.symm.trans hq))
    decide
  · obtain ⟨-, rfl⟩ := Prod.mk.inj (Option.some.inj (hrequested.symm.trans hq))
    decide
  · obtain rfl := Option.some.inj (hlayout.symm.trans hlayout')
    have hpath : f.path = "src/app/w.ts".toList := by
      have hmem : f.path ∈ r.written.map StagedFile.path := List.mem_map_of_mem hf
      rw [hwritten] at hmem
      exact List.mem_singleton.mp hmem
    have hapart : ∀ p ∈ readPaths { sourceRoot := "src".toList, host := some "m.ts".toList },
        shownHost.locate p ≠ shownHost.locate "src/app/w.ts".toList := by decide +kernel
    rw [hpath]
    exact fun hat => hapart p hp (hl.trans hat.symm)

/-- A component that was registered and shown is not so a second time. -/
theorem integrate_repeats_shown : ∃ r r',
    (integrate [] shownHost shownOptions scriptOnly).report = .ok r ∧ .patched ∈ r.visited ∧
      r.usageMarker.isSome = true ∧ Repeatable [] shownHost r ∧ (∀ f ∈ r.files, ¬ f.Lengthy) ∧
      Repeats r (integrate [] shownHost shownOptions scriptOnly).workspace
        (integrate [] (integrate [] shownHost shownOptions scriptOnly).workspace shownOptions scriptOnly)
        r' := by
  have h : (integrate [] shownHost shownOptions scriptOnly).report.toOption.map (fun r =>
      decide (WiredScript r ∧ r.usageMarker.isSome = true ∧
        r.files.map StagedFile.outcome = [.ok true])) = some true := by
    decide +kernel
  cases hr : (integrate [] shownHost shownOptions scriptOnly).report with
  | error f =>
    rw [hr] at h
    cases h
  | ok r =>
    rw [hr] at h
    obtain ⟨hwired, hmarker, houtcomes⟩ := of_decide_eq_true (Option.some.inj h)
    have hfits : ∀ f ∈ r.files, ¬ f.Lengthy := by
      rintro f hf ⟨e, he, -⟩
      have hmem : f.outcome ∈ r.files.map StagedFile.outcome := List.mem_map_of_mem hf
      rw [houtcomes, List.mem_singleton, he] at hmem
      cases hmem
    obtain ⟨r', hrepeats⟩ := (integrate_repeats_iff hr hwired.1 hwired.repeatable).1.mpr hfits
    exact ⟨r, r', rfl, hwired.1, hmarker, hwired.repeatable, hfits, hrepeats⟩

/-- A response with a script, and another one whose name is too long, in a directory of its own. -/
def lengthyReply : Text :=
  scriptOnly ++ "\n### filename: new/".toList ++ List.replicate 300 'n' ++
    ".ts ###\n\x60\x60\x60ts\nx\n\x60\x60\x60".toList

/-- A second run with such a response has no report. -/
theorem integrate_repeats_lengthy : ¬ ∀ (base : Location) (w : Workspace) (o : Options) (raw : Text)
    (r : Report), (integrate base w o raw).report = .ok r → .patched ∈ r.visited →
      Repeatable base w r → ∃ r', Repeats r (integrate base w o raw).workspace
        (integrate base (integrate base w o raw).workspace o raw) r' := by
  intro hall
  have h : (integrate [] shownHost shownOptions lengthyReply).report.toOption.map
      (fun r => decide (WiredScript r)) = some true := by
    decide +kernel
  have hagain : (integrate [] (integrate [] shownHost shownOptions lengthyReply).workspace shownOptions
      lengthyReply).report.toOption.isNone = true := by
    decide +kernel
  cases hr : (integrate [] shownHost shownOptions lengthyReply).report with
  | error f =>
    rw [hr] at h
    cases h
  | ok r =>
    rw [hr] at h
    have hwired : WiredScript r := of_decide_eq_true (Option.some.inj h)
    obtain ⟨r', hrepeats⟩ := hall _ _ _ _ _ hr hwired.1 hwired.repeatable
    rw [hrepeats.report] at hagain
    cases hagain

end Graft.Integration

