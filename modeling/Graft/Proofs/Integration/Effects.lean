import Graft.Proofs.Integration.Importing
import Graft.Proofs.Layout.Parts
import Graft.Proofs.Registration.Change
import Graft.Proofs.Registration.Repetition
import Graft.Proofs.Workspace.Files

/-
What an integration does to a workspace.

* `register_enrolled` — a registration reads the host and writes the patched text, if that is another;
* `Settled w template tag` — a template that gets no element;
* `Shown w template tag marker after` — what showing a component in a template comes to;
* `Wiring base w o layout r after` — a registration, and the template after it;
* `Pursued base w o raw r after` — the ways an integration may go;
* `integrate_pursued` — **every integration that reports goes one of them**.

Design notes: of the three who write, two write one file that they have read before, so each of them
is one `Rewritten` file or none.  Wherever an integration gives up, it writes no more.
-/
namespace Graft.Integration

open Staging Registration Workspace

variable {base : Location} {w after : Workspace} {o : Options} {layout : Layout} {r r' : Report}

/-! ### The host -/

/-- How a registration went: the host read as `source` is made to hold `u`. -/
structure Enrolled (w : Workspace) (q : Request) (g : Registered) (source u : Text)
    (after : Workspace) : Prop where
  read : w.read q.target = .ok source
  planned : plan source q = .ok g.edits
  patched : patched? source q = .ok u
  -- The host is written exactly when there is something to insert.
  effect : g.changed = false ∧ u = source ∧ after = w ∨
    g.changed = true ∧ u ≠ source ∧ Rewritten w q.target source u after

/-- A registration reads the host, and writes the patched text if that is another. -/
theorem register_enrolled {q : Request} {g : Registered} (hs : q.symbol ≠ [])
    (h : (register w q).result = .ok g) :
    ∃ source u, Enrolled w q g source u (register w q).workspace := by
  have hending := register_ending w q
  generalize register w q = o at h hending
  cases hending with
  | told htold =>
    cases htold with
    | unreadable _ | mismatched _ _ => cases h
    | @present source read planned =>
      cases h
      exact ⟨source, source, read, planned, patched?_eq_self planned, .inl ⟨rfl, rfl, rfl⟩⟩
    | @written source text edits after read planned some made write =>
      cases h
      have hchanged : Registered.changed ⟨q.target, q.role, edits⟩ = true := by
        simpa [Registered.changed] using some
      have hother := applyAll_ne_self hs planned some made
      exact ⟨source, text, read, planned, patched?_eq_ok planned made, .inr ⟨hchanged, hother, read, write⟩⟩
    | barred _ _ _ _ _ => cases h
  | faulted _ => cases h

/-! ### The template -/

/-- A template that gets no element: it is missing, cannot be read, has the element already, or is
locked. -/
structure Settled (w : Workspace) (template tag : Text) : Prop where
  -- One can tell whether it is there.
  there : ∃ b, w.exists? template = .ok b
  displayed : ∀ text, w.read template = .ok text → displays tag text = true ∨
    ∃ e, w.write template (withElement tag text) = (.error (.path e), w)

/-- What showing a component in a template comes to: the marker that is reported, and the workspace
that is left. -/
inductive Shown (w : Workspace) (template tag : Text) : Option Text → Workspace → Prop
  | settled (h : Settled w template tag) : Shown w template tag none w
  | added {text : Text} {after : Workspace} (missing : displays tag text = false)
      (rewritten : Rewritten w template text (withElement tag text) after) :
      Shown w template tag (some template) after

/-- A template with an element more is another text. -/
theorem withElement_ne_self (tag template : Text) : withElement tag template ≠ template := by
  intro h
  have hlength := congrArg List.length h
  simp only [withElement, element, List.length_append, List.length_cons] at hlength
  omega

theorem display_shown {primary : Staged} {p : Text} (hnone : r.usageMarker = none)
    (h : display w layout primary p r = (.ok r', after)) :
    Shown w layout.template (Name.tag primary.artifact.path p) r'.usageMarker after := by
  unfold display at h
  dsimp only at h
  split at h
  · cases h
  next hexists =>
    cases h
    rw [hnone]
    refine .settled ⟨⟨_, hexists⟩, fun text hread => ?_⟩
    rw [exists?_of_read hread] at hexists
    cases hexists
  next hexists =>
    split at h
    · cases h
    next e hread =>
      cases h
      refine hnone ▸ .settled ⟨⟨_, hexists⟩, fun text hread' => ?_⟩
      rw [hread] at hread'
      cases hread'
    next text hread =>
      split at h
      next hthere =>
        cases h
        refine hnone ▸ .settled ⟨⟨_, hexists⟩, fun text' hread' => ?_⟩
        obtain rfl := Except.ok.inj (hread.symm.trans hread')
        exact .inl hthere
      next hmissing =>
        have hmissing' := Bool.eq_false_iff.mpr hmissing
        rcases write_of_read hread (withElement (Name.tag primary.artifact.path p) text) with
          ⟨new, w', hw⟩ | ⟨e, hw⟩
        · rw [hw] at h
          cases h
          exact .added hmissing' ⟨hread, _, hw⟩
        · rw [hw] at h
          cases h
          refine hnone ▸ .settled ⟨⟨_, hexists⟩, fun text' hread' => ?_⟩
          obtain rfl := Except.ok.inj (hread.symm.trans hread')
          exact .inr ⟨e, hw⟩

/-! ### The wiring -/

/-- A component registered in its host, and shown in the root template if that is asked for. -/
structure Wiring (base : Location) (w : Workspace) (o : Options) (layout : Layout) (r : Report)
    (after : Workspace) where
  primary : Staged
  -- Where the script of the component went, and its text.
  path : Text
  script : Text
  request : Request
  registered : Registered
  -- The text of the host before and after.
  source : Text
  patched : Text
  -- The workspace once the host is written.
  between : Workspace
  host : layout.host = some request.target
  there : w.exists? request.target = .ok true
  chosen : r.primary = some primary
  found : script? r.staged primary = some (path, script)
  requested : request? base request.target primary path script = some request
  reported : r.registered = some registered
  enrolled : Enrolled w request registered source patched between
  shown : if o.usageMarker = true then
      Shown between layout.template (Name.tag primary.artifact.path o.tagPrefix) r.usageMarker after
    else r.usageMarker = none ∧ after = between

/-- What a report keeps while a component is wired. -/
def Continues (r r' : Report) : Prop := SameFiles r r' ∧ r'.host = r.host ∧ r'.primary = r.primary

/-- A registration is made and shown, or the host is left as it is. -/
theorem Registering.wiring {host path script : Text} {primary : Staged} {q : Request}
    (hways : Registering w o layout primary q r r' after)
    (hq : request? base host primary path script = some q)
    (hfresh : r.registered = none ∧ r.usageMarker = none) (hlayout : layout.host = some host)
    (hthere : w.exists? host = .ok true) (hchosen : r.primary = some primary)
    (hfound : script? r.staged primary = some (path, script)) : Continues r r' ∧
      (r'.registered = none ∧ r'.usageMarker = none ∧ after = w ∨
        Nonempty (Wiring base w o layout r' after)) := by
  obtain ⟨htarget, -, -⟩ := target_of_request? hq
  have hs : q.symbol ≠ [] := (isIdentifier_of_request? hq).nonempty
  rw [← htarget] at hlayout hthere hq
  cases hways with
  | refused i failed =>
    exact ⟨⟨⟨rfl, rfl, rfl⟩, rfl, rfl⟩, .inl ⟨hfresh.1, hfresh.2, (register_ending w q).unchanged failed⟩⟩
  | @hidden g made unmarked =>
    obtain ⟨source, u, henrolled⟩ := register_enrolled hs made
    refine ⟨⟨⟨rfl, rfl, rfl⟩, rfl, rfl⟩, .inr ⟨⟨primary, path, script, q, g, source, u, _,
      hlayout, hthere, hchosen, hfound, hq, rfl, henrolled, ?_⟩⟩⟩
    rw [if_neg (by simp [unmarked])]
    exact ⟨hfresh.2, rfl⟩
  | @shown g s _ made marked displayed =>
    obtain ⟨source, u, henrolled⟩ := register_enrolled hs made
    have hnone : ({ r with registered := some g }.reach .patched).usageMarker = none := hfresh.2
    have hshown := display_shown hnone displayed
    obtain ⟨marker, warnings, rfl⟩ := display_eq displayed
    refine ⟨⟨⟨rfl, rfl, rfl⟩, rfl, rfl⟩, .inr ⟨⟨primary, path, script, q, g, source, u, _,
      hlayout, hthere, hchosen, hfound, hq, rfl, henrolled, ?_⟩⟩⟩
    rw [if_pos marked]
    exact hshown

theorem wire_wiring (hr : (wire base w o layout r).report = .ok r')
    (hfresh : r.registered = none ∧ r.usageMarker = none) : Continues r r' ∧
      (r'.registered = none ∧ r'.usageMarker = none ∧ (wire base w o layout r).workspace = w ∨
        Nonempty (Wiring base w o layout r' (wire base w o layout r).workspace)) := by
  rcases wire_cases hr with ⟨i, rfl, hw⟩ | ⟨host, primary, path, script, hlayout, hprimary, hfound, hthere, hinto⟩
  · exact ⟨⟨⟨rfl, rfl, rfl⟩, rfl, rfl⟩, .inl ⟨hfresh.1, hfresh.2, hw⟩⟩
  · rw [hinto] at hr ⊢
    obtain ⟨q, after, hq, hafter, hways⟩ := wireInto_cases hr
    rw [hafter]
    exact hways.wiring hq hfresh hlayout hthere hprimary hfound

/-! ### The whole integration -/

/-- The ways an integration that reports may go. -/
inductive Pursued (base : Location) (w : Workspace) (o : Options) (raw : Text) :
    Report → Workspace → Prop
  -- The response holds nothing, or the project cannot be located.
  | failed {r : Report} (layout : r.layout = none) (staged : r.staged = [])
      (registered : r.registered = none) (marker : r.usageMarker = none) : Pursued base w o raw r w
  -- The artifacts are written, and the host is left as it is.
  | unwired {r : Report} {layout : Layout} {after : Workspace} (found : r.layout = some layout)
      (host : r.host = layout.host)
      (staged : stage layout.sourceRoot r.artifacts w = (.ok r.staged, after))
      (registered : r.registered = none) (marker : r.usageMarker = none) :
      Pursued base w o raw r after
  | wired {r : Report} {layout : Layout} {staging after : Workspace} (found : r.layout = some layout)
      (host : r.host = layout.host)
      (staged : stage layout.sourceRoot r.artifacts w = (.ok r.staged, staging))
      (primary : r.primary = r.staged.find? Staged.ok)
      (parsed : Response.parse? raw = some r.artifacts) (located : Layout.find w o.hints = .ok layout)
      (wiring : Wiring base staging o layout r after) : Pursued base w o raw r after

/-- **Every integration that reports goes one of these ways.** -/
theorem integrate_pursued {raw : Text} (hr : (integrate base w o raw).report = .ok r) :
    Pursued base w o raw r (integrate base w o raw).workspace := by
  rw [integrate] at hr ⊢
  rcases proceed_cases hr with ⟨rfl, hw⟩ | ⟨artifacts, hparse, hplaced⟩
  · rw [hw]
    exact .failed rfl rfl rfl rfl
  rw [hplaced] at hr ⊢
  rcases place_cases hr with ⟨p, rfl, hw⟩ | ⟨layout, files, staging, hfind, hstage, hwire⟩
  · rw [hw]
    exact .failed rfl rfl rfl rfl
  rw [hwire] at hr ⊢
  obtain ⟨⟨⟨hartifacts, hstaged, hlayout⟩, hhost, hprimary⟩, hend⟩ := wire_wiring hr ⟨rfl, rfl⟩
  have hlayout' : r.layout = some layout := hlayout
  have hhost' : r.host = layout.host := hhost
  have hstage' : stage layout.sourceRoot r.artifacts w = (.ok r.staged, staging) := by
    rw [hartifacts, hstaged]
    exact hstage
  rcases hend with ⟨hreg, hmark, hw⟩ | ⟨⟨wiring⟩⟩
  · rw [hw]
    exact .unwired hlayout' hhost' hstage' hreg hmark
  · have hprimary' : r.primary = r.staged.find? Staged.ok := by
      rw [hprimary, hstaged]
      rfl
    exact .wired hlayout' hhost' hstage' hprimary' (hparse.trans (congrArg some hartifacts.symm)) hfind wiring

end Graft.Integration
