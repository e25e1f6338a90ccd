import Graft.Proofs.Integration.Effects
import Graft.Proofs.Staging.Retention

/-
The files that an integration leaves alone.

* `Reported w r l` — a location that a report names as written;
* `Framed w after r` — what an integration with this report owes to the files of a workspace;
* `integrate_framed` — **every integration that reports takes no file away, changes only what it reports,
  and reports what it changes**.

Design notes: each of the three who write is told apart by the location it can write to, so a change is
followed back through the workspaces in between to the one who made it.
-/
namespace Graft.Workspace

variable {w w' : Workspace} {path old t : Text} {l : Location}

theorem Rewritten.held_isSome (h : Rewritten w path old t w') (hl : (w.held l).isSome = true) :
    (w'.held l).isSome = true := by
  obtain ⟨_, -, -, hwrites⟩ := h.writes
  exact hwrites.later.held_isSome hl

/-- Only the file itself is written anew. -/
theorem Rewritten.located (h : Rewritten w path old t w') (hne : w'.held l ≠ w.held l) :
    w.locate path = .ok l := by
  obtain ⟨new, hwrite⟩ := h.write
  obtain ⟨m, hm, -, -⟩ := h.writes
  by_contra hno
  have hlm : l ≠ m := fun he => hno (he ▸ hm)
  exact hne (by rw [held_write hwrite hm, if_neg hlm])

theorem Rewritten.locate_eq (h : Rewritten w path old t w') (p : Text) : w'.locate p = w.locate p := by
  obtain ⟨_, -, -, hwrites⟩ := h.writes
  exact hwrites.locate_eq

end Graft.Workspace

namespace Graft.Staging

open Workspace

variable {w w' : Workspace} {files : List (Artifact × StagedFile)} {l : Location}

theorem IsRun.held_isSome (h : IsRun w files w') (hl : (w.held l).isSome = true) :
    (w'.held l).isSome = true :=
  h.writes.later.held_isSome hl

/-- Only what was written differs. -/
theorem IsRun.located (h : IsRun w files w') (hne : w'.held l ≠ w.held l) :
    ∃ f ∈ files, w.locate f.2.path = .ok l := by
  rw [h.writes.held_eq] at hne
  cases hlatest : latest l (deposits w files) with
  | none =>
    rw [hlatest] at hne
    exact absurd rfl hne
  | some t =>
    obtain ⟨f, hf, hl, -⟩ := mem_deposits.mp (mem_of_latest hlatest)
    exact ⟨f, hf, hl⟩

end Graft.Staging

namespace Graft.Integration

open Staging Registration Workspace

variable {base : Location} {w staging between after : Workspace} {o : Options} {layout : Layout}
  {r : Report} {l : Location}

/-! ### Two who write one file -/

theorem Enrolled.held_isSome {q : Request} {g : Registered} {source u : Text}
    (h : Enrolled w q g source u after) (hl : (w.held l).isSome = true) :
    (after.held l).isSome = true := by
  rcases h.effect with ⟨-, -, rfl⟩ | ⟨-, -, hrewritten⟩
  · exact hl
  · exact hrewritten.held_isSome hl

/-- The host alone is written, when a registration changes it. -/
theorem Enrolled.located {q : Request} {g : Registered} {source u : Text}
    (h : Enrolled w q g source u after) (hne : after.held l ≠ w.held l) :
    g.changed = true ∧ w.locate q.target = .ok l := by
  rcases h.effect with ⟨-, -, rfl⟩ | ⟨hchanged, -, hrewritten⟩
  · exact absurd rfl hne
  · exact ⟨hchanged, hrewritten.located hne⟩

/-- The host is another file exactly when a registration changes it. -/
theorem Enrolled.differs_iff {q : Request} {g : Registered} {source u : Text}
    (h : Enrolled w q g source u after) (hl : w.locate q.target = .ok l) :
    after.held l ≠ w.held l ↔ g.changed = true := by
  refine ⟨fun hne => (h.located hne).1, fun hchanged => ?_⟩
  rcases h.effect with ⟨hno, -, -⟩ | ⟨-, hne, hrewritten⟩
  · rw [hchanged] at hno
    cases hno
  · exact hrewritten.differs hne hl

theorem Enrolled.locate_eq {q : Request} {g : Registered} {source u : Text}
    (h : Enrolled w q g source u after) (p : Text) : after.locate p = w.locate p := by
  rcases h.effect with ⟨-, -, rfl⟩ | ⟨-, -, hrewritten⟩
  · rfl
  · exact hrewritten.locate_eq p

/-- What becomes of a template: nothing, or it is written and named as the marker. -/
theorem Shown.effect {template tag : Text} {marker : Option Text}
    (h : Shown w template tag marker after) : (marker = none ∧ after = w) ∨
      marker = some template ∧ ∃ old text, text ≠ old ∧ Rewritten w template old text after := by
  cases h with
  | settled => exact Or.inl ⟨rfl, rfl⟩
  | added _ hrewritten => exact Or.inr ⟨rfl, _, _, withElement_ne_self _ _, hrewritten⟩

theorem Wiring.template_effect (h : Wiring base w o layout r after) :
    (r.usageMarker = none ∧ ∀ l, after.held l = h.between.held l) ∨
      r.usageMarker = some layout.template ∧
        ∃ old text, text ≠ old ∧ Rewritten h.between layout.template old text after := by
  have hsame (he : after = h.between) (l : Location) : after.held l = h.between.held l :=
    congrArg (fun v => held v l) he
  have hshown := h.shown
  split at hshown
  · exact hshown.effect.imp_left fun he => ⟨he.1, hsame he.2⟩
  · exact Or.inl ⟨hshown.1, hsame hshown.2⟩

theorem Wiring.held_isSome (h : Wiring base w o layout r after) (hl : (w.held l).isSome = true) :
    (after.held l).isSome = true := by
  have hbetween := h.enrolled.held_isSome hl
  rcases h.template_effect with ⟨-, hsame⟩ | ⟨-, _, _, -, hrewritten⟩
  · rwa [hsame]
  · exact hrewritten.held_isSome hbetween

/-- The template alone is written once the host is. -/
theorem Wiring.located (h : Wiring base w o layout r after) (hne : after.held l ≠ h.between.held l) :
    r.usageMarker = some layout.template ∧ w.locate layout.template = .ok l := by
  rcases h.template_effect with ⟨-, hsame⟩ | ⟨hmarker, _, _, -, hrewritten⟩
  · exact absurd (hsame l) hne
  · rw [← h.enrolled.locate_eq]
    exact ⟨hmarker, hrewritten.located hne⟩

/-- The template is another file exactly when it is named as the marker. -/
theorem Wiring.differs_iff (h : Wiring base w o layout r after)
    (hl : w.locate layout.template = .ok l) :
    after.held l ≠ h.between.held l ↔ r.usageMarker.isSome = true := by
  rcases h.template_effect with ⟨hmarker, hsame⟩ | ⟨hmarker, _, _, hne, hrewritten⟩
  · rw [hmarker, hsame]
    simp
  · rw [hmarker]
    refine ⟨fun _ => rfl, fun _ => hrewritten.differs hne ?_⟩
    rw [h.enrolled.locate_eq]
    exact hl

/-! ### What is reported -/

/-- A location that a report names as written. -/
inductive Reported (w : Workspace) (r : Report) (l : Location) : Prop
  | staged {f : StagedFile} (written : f ∈ r.written) (located : w.locate f.path = .ok l)
  | host {host : Text} {g : Registered} (named : r.host = some host)
      (registered : r.registered = some g) (changed : g.changed = true)
      (located : w.locate host = .ok l)
  | marker {template : Text} (named : r.usageMarker = some template)
      (located : w.locate template = .ok l)

/-- The host and the root template lie apart, and no artifact was written to either. -/
structure Separate (w : Workspace) (r : Report) (layout : Layout) (host : Text)
    (atHost atTemplate : Location) : Prop where
  found : r.layout = some layout
  named : r.host = some host
  hostAt : w.locate host = .ok atHost
  templateAt : w.locate layout.template = .ok atTemplate
  apart : atHost ≠ atTemplate
  free : ∀ f ∈ r.written, w.locate f.path ≠ .ok atHost ∧ w.locate f.path ≠ .ok atTemplate

/-- What an integration with this report owes to the files of a workspace. -/
structure Framed (w after : Workspace) (r : Report) : Prop where
  -- No file is taken away.
  kept {l : Location} (there : (w.held l).isSome = true) : (after.held l).isSome = true
  -- A file that is new or differs is reported.
  accounted {l : Location} (differs : after.held l ≠ w.held l) : Reported w r l
  -- The host differs exactly when it is reported as changed.
  host {layout : Layout} {host : Text} {m n : Location} (separate : Separate w r layout host m n) :
    after.held m ≠ w.held m ↔ ∃ g, r.registered = some g ∧ g.changed = true
  -- The template differs exactly when it is reported as the marker.
  template {layout : Layout} {host : Text} {m n : Location}
    (separate : Separate w r layout host m n) : after.held n ≠ w.held n ↔ r.usageMarker.isSome = true

theorem mem_report_written {f : StagedFile} :
    f ∈ r.written ↔ ∃ a, (a, f) ∈ Staging.written r.staged := by
  simp only [Report.written, Report.files, Staging.written, List.mem_filter, List.mem_flatMap,
    List.mem_map, Prod.mk.injEq]
  constructor
  · rintro ⟨⟨s, hs, hf⟩, hok⟩
    exact ⟨s.artifact, s, hs, f, ⟨hf, hok⟩, rfl, rfl⟩
  · rintro ⟨a, s, hs, g, ⟨hg, hok⟩, -, rfl⟩
    exact ⟨⟨s, hs, hg⟩, hok⟩

/-- Where no artifact was written the files are those from before the staging. -/
theorem held_of_unstaged (h : IsRun w (Staging.written r.staged) after)
    (hfree : ∀ f ∈ r.written, w.locate f.path ≠ .ok l) : after.held l = w.held l := by
  by_contra hne
  obtain ⟨f, hf, hl⟩ := h.located hne
  exact hfree f.2 (mem_report_written.mpr ⟨f.1, hf⟩) hl

theorem reported_of_staged (h : IsRun w (Staging.written r.staged) after)
    (hne : after.held l ≠ w.held l) : Reported w r l := by
  obtain ⟨f, hf, hl⟩ := h.located hne
  exact .staged (mem_report_written.mpr ⟨f.1, hf⟩) hl

/-- An integration that only stages is framed. -/
theorem framed_of_unwired (h : IsRun w (Staging.written r.staged) after) (hreg : r.registered = none)
    (hmarker : r.usageMarker = none) : Framed w after r where
  kept there := h.held_isSome there
  accounted differs := reported_of_staged h differs
  host separate := by
    refine iff_of_false ?_ ?_
    · rw [held_of_unstaged h fun f hf => (separate.free f hf).1]
      exact fun hne => hne rfl
    · rw [hreg]
      rintro ⟨g, hg, -⟩
      cases hg
  template separate := by
    refine iff_of_false ?_ ?_
    · rw [held_of_unstaged h fun f hf => (separate.free f hf).2]
      exact fun hne => hne rfl
    · rw [hmarker]
      exact Bool.false_ne_true

/-- An integration that registers a class is framed. -/
theorem framed_of_wired (h : IsRun w (Staging.written r.staged) staging) (hfound : r.layout = some layout)
    (hhost : r.host = layout.host) (wiring : Wiring base staging o layout r after) :
    Framed w after r where
  kept there := wiring.held_isSome (h.held_isSome there)
  accounted := by
    intro l differs
    by_cases hstaged : staging.held l = w.held l
    · by_cases henrolled : wiring.between.held l = staging.held l
      · -- neither of the two before has written there
        have hne : after.held l ≠ wiring.between.held l := by
          rw [henrolled, hstaged]
          exact differs
        obtain ⟨hmarker, hl⟩ := wiring.located hne
        exact .marker hmarker (h.locate_eq ▸ hl)
      · obtain ⟨hchanged, hl⟩ := wiring.enrolled.located henrolled
        exact .host (hhost.trans wiring.host) wiring.reported hchanged (h.locate_eq ▸ hl)
    · exact reported_of_staged h hstaged
  host := by
    intro layout' host m n separate
    obtain rfl := Option.some.inj (separate.found.symm.trans hfound)
    obtain rfl := Option.some.inj (separate.named.symm.trans (hhost.trans wiring.host))
    have hm : staging.locate wiring.request.target = .ok m := h.locate_eq ▸ separate.hostAt
    have hn : staging.locate layout'.template = .ok n := h.locate_eq ▸ separate.templateAt
    have hlast : after.held m = wiring.between.held m := by
      by_contra hne
      exact separate.apart (Except.ok.inj (hn.symm.trans (wiring.located hne).2)).symm
    rw [hlast, ← held_of_unstaged h fun f hf => (separate.free f hf).1, wiring.enrolled.differs_iff hm,
      wiring.reported]
    simp
  template := by
    intro layout' host m n separate
    obtain rfl := Option.some.inj (separate.found.symm.trans hfound)
    obtain rfl := Option.some.inj (separate.named.symm.trans (hhost.trans wiring.host))
    have hm : staging.locate wiring.request.target = .ok m := h.locate_eq ▸ separate.hostAt
    have hn : staging.locate layout'.template = .ok n := h.locate_eq ▸ separate.templateAt
    have hfirst : wiring.between.held n = staging.held n := by
      by_contra hne
      exact separate.apart (Except.ok.inj (hm.symm.trans (wiring.enrolled.located hne).2))
    rw [← wiring.differs_iff hn, hfirst, held_of_unstaged h fun f hf => (separate.free f hf).2]

/-- **Every integration that reports takes no file away, changes only what it reports, and reports what
it changes.** -/
theorem integrate_framed {raw : Text} (hr : (integrate base w o raw).report = .ok r) :
    Framed w (integrate base w o raw).workspace r := by
  have hpursued := integrate_pursued hr
  generalize (integrate base w o raw).workspace = after at hpursued
  cases hpursued with
  | failed layout staged registered marker =>
    refine framed_of_unwired ?_ registered marker
    rw [staged]
    exact .nil w
  | unwired found host staged registered marker =>
    exact framed_of_unwired (stage_writes staged) registered marker
  | wired found host staged primary parsed located wiring =>
    exact framed_of_wired (stage_writes staged) found host wiring

/-- A response that is registered changes the host, which lies apart from the script and the template. -/
theorem integrate_framed_script : ∃ r,
    (integrate [] hostOnly { hints := { host := some "m.ts".toList } } scriptOnly).report = .ok r ∧
      Framed hostOnly
        (integrate [] hostOnly { hints := { host := some "m.ts".toList } } scriptOnly).workspace r ∧
      (integrate [] hostOnly { hints := { host := some "m.ts".toList } } scriptOnly).workspace.held
        ["m.ts".toList] ≠ hostOnly.held ["m.ts".toList] := by
  have h : (integrate [] hostOnly { hints := { host := some "m.ts".toList } }
      scriptOnly).report.toOption.map (fun r => (r.layout, r.host, r.written.map StagedFile.path,
        r.registered.any Registered.changed)) =
        some (some { sourceRoot := "src".toList, host := some "m.ts".toList }, some "m.ts".toList,
          ["src/app/w.ts".toList], true) := by
    decide +kernel
  cases hr : (integrate [] hostOnly { hints := { host := some "m.ts".toList } }
      scriptOnly).report with
  | error f =>
    rw [hr] at h
    cases h
  | ok r =>
    rw [hr] at h
    obtain ⟨hlayout, h⟩ := Prod.mk.inj (Option.some.inj h)
    obtain ⟨hhost, h⟩ := Prod.mk.inj h
    obtain ⟨hwritten, hchanged⟩ := Prod.mk.inj h
    have hframed := integrate_framed hr
    have hpath (f : StagedFile) (hf : f ∈ r.written) : f.path = "src/app/w.ts".toList := by
      have hmem : f.path ∈ r.written.map StagedFile.path := List.mem_map_of_mem hf
      rw [hwritten] at hmem
      exact List.mem_singleton.mp hmem
    have hseparate : Separate hostOnly r { sourceRoot := "src".toList, host := some "m.ts".toList }
        "m.ts".toList ["m.ts".toList]
        ["src".toList, "app".toList, "app.component.html".toList] := by
      refine ⟨hlayout, hhost, rfl, rfl, by decide, fun f hf => ?_⟩
      rw [hpath f hf]
      decide +kernel
    obtain ⟨g, hg, hchanged⟩ := (Option.any_eq_true _ _).mp hchanged
    exact ⟨r, rfl, hframed, (hframed.host hseparate).mpr ⟨g, hg, hchanged⟩⟩

end Graft.Integration
