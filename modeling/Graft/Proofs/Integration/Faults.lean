import Graft.Proofs.Integration.Importing
import Graft.Proofs.Integration.Stages
import Graft.Proofs.Layout.Roots
import Graft.Proofs.Staging.Faults
import Graft.Proofs.Staging.Retention

/-
Integrations that do not report.

* `display_fault_iff` — a template is dealt with unless it cannot be looked up;
* `exists_specifier`, `path_of_script?` — there is a specifier for every script that was staged;
* `Registers base w staged host` — the registration that a wiring makes;
* `wire_fault_iff` — a component is wired unless the host or the template cannot be looked up;
* `Escapes base w o as f` — the ways a fault comes of integrating artifacts;
* `Untold w h` — a source root that is no text, but a name;
* `integrate_total_iff` — **an integration comes to its end, or fails, exactly when none of these ways is
  open**.

Design notes: every step tells its own failures in the report, so the proof follows the faults alone.  All
but those of the manifest are those of places that cannot be looked up: paths with a NUL in them, names and
paths that are too long, and directories that are closed.  What was written before is on the way to some of
these places, so each is asked of the workspace at its turn.
-/
namespace Graft.Workspace

variable {w w' : Workspace} {p : Text} {f : Fault}

/-- Where each of two workspaces is the later one, the same paths cannot be looked up. -/
theorem Later.barred_iff (h : Later w w') (h' : Later w' w) : Barred w' p f ↔ Barred w p f := by
  rw [← exists?_fault_iff, ← exists?_fault_iff, h.exists?_eq_of_later h']

end Graft.Workspace

namespace Graft.Integration

open Staging Registration Workspace Layout

variable {base : Location} {w : Workspace} {o : Options} {layout : Layout} {r : Report} {f : Fault}

/-! ### The template -/

/-- A component is shown, or it is told why not, unless the template cannot be looked up. -/
theorem display_fault_iff {primary : Staged} {tagPrefix : Text} :
    (display w layout primary tagPrefix r).1 = .error f ↔ Barred w layout.template f := by
  rw [← exists?_fault_iff, display]
  cases hthere : w.exists? layout.template with
  | error f' => simp
  | ok there =>
    have hquiet (f : Fault) : ¬ Barred w layout.template f := fun h => by
      rw [exists?_fault_iff.mpr h] at hthere
      cases hthere
    cases there with
    | false => simp
    | true =>
      simp only [reduceCtorEq, iff_false]
      cases hread : w.read layout.template with
      | error e =>
        cases e with
        | fault f' => exact absurd (.inl (read_fault_iff.mp hread)) (hquiet f')
        | path e => simp
      | ok text =>
        dsimp only
        split
        · simp
        · cases hw : w.write layout.template (withElement (Name.tag primary.artifact.path tagPrefix) text) with
          | mk result w' =>
            cases result with
            | ok new => simp
            | error e =>
              cases e with
              | fault f' => exact absurd (write_fault_iff.mp (congrArg Prod.fst hw)) (hquiet f')
              | path e => simp

/-! ### The script -/

/-- A relative path with more to it than an extension, as scripts have. -/
structure IsScriptPath (path : Text) : Prop where
  relative : path.head? ≠ some '/'
  long : 3 < path.length

/-- There is a specifier for every such path. -/
theorem exists_specifier (base : Location) (host : Text) {path : Text} (h : IsScriptPath path) :
    ∃ p, specifier? base host path = some p := by
  have hled {n : Nat} (hn : 0 < n) :
      (path.take n).dropWhile Path.isSlash = path.take n ∧ path.take n ≠ [] := by
    have hhead : (path.take n).head? = path.head? := by rw [List.head?_take, if_neg hn.ne']
    refine ⟨Text.dropWhile_eq_self fun c hc => ?_, fun hnil => ?_⟩
    · have hne : c ≠ '/' := by
        rintro rfl
        exact h.relative (hhead.symm.trans hc)
      simpa [Path.isSlash] using hne
    · have hlong := h.long
      have hzero := congrArg List.length hnil
      rw [List.length_take, List.length_nil] at hzero
      omega
  obtain ⟨n, hn, htarget⟩ : ∃ n, 0 < n ∧ (if Text.endsWith ".ts".toList path then
      path.take (path.length - 3) else path) = path.take n := by
    split
    · exact ⟨_, Nat.sub_pos_of_lt h.long, rfl⟩
    · exact ⟨path.length, Nat.lt_of_le_of_lt (Nat.zero_le 3) h.long, List.take_length.symm⟩
  obtain ⟨hsame, hne⟩ := hled hn
  rw [specifier?]
  rw [htarget, hsame, Path.relative?, if_neg (by simpa using hne)]
  exact ⟨_, rfl⟩

/-- A script of an artifact goes to such a path. -/
theorem isScriptPath_destination {sr p : Text} (hsr : IsSourceRoot sr) (hp : Path.IsClean p) :
    IsScriptPath (destination sr (Artifact.pathFor p .script)) := by
  have hfile := Artifact.isClean_pathFor hp .script
  have hlong : 3 < (Artifact.pathFor p .script).length := by
    obtain ⟨e, heq, -, he⟩ := Artifact.pathFor_eq_stem p .script
    have hts : Text.lowercase e = "ts".toList := List.mem_singleton.mp he
    have hlength : e.length = 2 := by
      rw [← Text.length_lowercase (by rw [hts]; decide), hts]
      rfl
    have hstem := List.length_pos_of_ne_nil (Artifact.stem_ne_nil hp.ne_nil)
    rw [heq, List.length_append, List.length_cons]
    omega
  rcases destination_cases sr hfile.ne_nil with ⟨-, hkept⟩ | hmoved
  · rw [hkept]
    exact ⟨hfile.head_ne_slash, hlong⟩
  · rw [hmoved, application, hsr.bare, joined_app hsr.nonempty, List.append_assoc]
    refine ⟨?_, ?_⟩
    · rw [List.head?_append_of_ne_nil _ hsr.nonempty]
      exact hsr.head_ne_slash
    · simp only [List.length_append, List.length_cons]
      omega

/-- A script that is chosen went to such a path. -/
theorem path_of_script? {sr raw : Text} {as : List Artifact} {staged : List Staged} {after : Workspace}
    {primary : Staged} {path script : Text} (hp : Response.parse? raw = some as)
    (hsr : IsSourceRoot sr) (hstage : stage sr as w = (.ok staged, after))
    (h : script? staged primary = some (path, script)) : IsScriptPath path := by
  obtain ⟨s, hs, hscript⟩ := List.exists_of_findSome?_eq_some h
  obtain ⟨path', hpath, heq⟩ := Option.map_eq_some_iff.mp hscript
  obtain ⟨rfl, -⟩ := Prod.mk.inj heq
  obtain ⟨g, hg, rfl⟩ := Option.map_eq_some_iff.mp hpath
  have hkind : g.kind = .script := by simpa using List.find?_some hg
  obtain ⟨ha, hdestination⟩ :=
    path_of_mem_files hstage (List.mem_filter.mp hs).1 (List.mem_of_find?_eq_some hg)
  have hclean := (Response.path_of_mem_artifacts (Response.eq_artifacts_of_parse? hp ▸ ha)).1
  rw [hdestination, hkind]
  exact isScriptPath_destination hsr hclean

/-! ### The wiring -/

/-- The registration that a wiring makes in a host. -/
def Registers (base : Location) (w : Workspace) (staged : List Staged) (host : Text) : Prop :=
  ∃ primary path script q g, staged.find? Staged.ok = some primary ∧
    script? staged primary = some (path, script) ∧ request? base host primary path script = some q ∧
    (register w q).result = .ok g

/-- What was there before a registration could be written back. -/
theorem register_later {q : Request} {g : Registered} (h : (register w q).result = .ok g) :
    Later w (register w q).workspace ∧ Later (register w q).workspace w := by
  have hending := register_ending w q
  generalize register w q = out at h hending
  cases hending with
  | told htold =>
    cases htold with
    | unreadable _ | mismatched _ _ | barred _ _ _ _ _ => cases h
    | present _ _ => exact ⟨.refl w, .refl w⟩
    | written read planned some made write now elsewhere =>
      have hrewritten : Rewritten w q.target _ _ _ := ⟨read, write⟩
      exact ⟨hrewritten.later, hrewritten.earlier⟩
  | faulted _ => cases h

/-- A component is registered, or it is told why not, unless it is registered and the template cannot be
looked up then. -/
theorem wireInto_fault_iff {primary : Staged} {host path script : Text} (hpath : IsScriptPath path)
    (hthere : w.exists? host = .ok true) :
    (wireInto base w o layout host primary path script r).report = .error f ↔
      o.usageMarker = true ∧ (∃ q g, request? base host primary path script = some q ∧
        (register w q).result = .ok g) ∧ Barred w layout.template f := by
  obtain ⟨p, hp⟩ := exists_specifier base host hpath
  cases hq : request? base host primary path script with
  | none =>
    rw [request?, hp] at hq
    cases hq
  | some q =>
    obtain ⟨htarget, -⟩ := target_of_request? hq
    simp only [Option.some.injEq, exists_and_left, exists_eq_left']
    rw [wireInto, hq]
    dsimp only
    cases hdone : (register w q).result with
    | error e =>
      cases e with
      | fault f' =>
        -- A host that is there can be looked up.
        rw [exists?_fault_iff.mpr (.inl (htarget ▸ register_fault_iff.mp hdone))] at hthere
        cases hthere
      | unreadable _ _ | mismatch _ | outOfRange _ | unwritten _ => simp [issueOf, Except.map]
    | ok g =>
      obtain ⟨hlater, hback⟩ := register_later hdone
      dsimp only
      cases hmark : o.usageMarker with
      | false => simp [Except.map]
      | true =>
        simp only [if_true, map_eq_error_iff, true_and]
        rw [display_fault_iff, hlater.barred_iff hback, and_iff_right ⟨g, rfl⟩]

/-- The script to be wired among what was staged. -/
def chosen? (staged : List Staged) : Option (Text × Text) :=
  (staged.find? Staged.ok).bind (script? staged)

/-- There are a script and a host where a registration is made. -/
theorem Registers.there {staged : List Staged} {host : Text} (h : Registers base w staged host) :
    (chosen? staged).isSome = true ∧ w.exists? host = .ok true := by
  obtain ⟨primary, path, script, q, g, hprimary, hscript, hq, hdone⟩ := h
  obtain ⟨source, hread, -⟩ := (register_ending w q).planned hdone
  refine ⟨by rw [chosen?, hprimary, Option.bind_some, hscript]; rfl, ?_⟩
  rw [← (target_of_request? hq).1]
  exact exists?_of_read hread

/-- **A component is wired, or it is told why not, unless there is one and the host cannot be looked up, or
the template once it is registered.** -/
theorem wire_fault_iff (hprimary : r.primary = r.staged.find? Staged.ok)
    (hpath : ∀ primary path script, script? r.staged primary = some (path, script) → IsScriptPath path) :
    (wire base w o layout r).report = .error f ↔ ∃ host, layout.host = some host ∧
      ((chosen? r.staged).isSome = true ∧ Barred w host f ∨
        o.usageMarker = true ∧ Registers base w r.staged host ∧ Barred w layout.template f) := by
  rw [wire, hprimary]
  cases hhost : layout.host with
  | none => simp
  | some host =>
    simp only [Option.some.injEq, exists_eq_left']
    have hchosen (h : chosen? r.staged = none) : ¬ Registers base w r.staged host := fun hreg => by
      have hthere := hreg.there.1
      rw [h] at hthere
      cases hthere
    cases hp : r.staged.find? Staged.ok with
    | none =>
      have hnone : chosen? r.staged = none := by rw [chosen?, hp]; rfl
      simp [hnone, hchosen hnone]
    | some primary =>
      cases hs : script? r.staged primary with
      | none =>
        have hnone : chosen? r.staged = none := by rw [chosen?, hp, Option.bind_some, hs]
        simp [hs, hnone, hchosen hnone]
      | some found =>
        obtain ⟨path, script⟩ := found
        have hsome : (chosen? r.staged).isSome = true := by
          rw [chosen?, hp, Option.bind_some, hs]
          rfl
        simp only [Option.bind_some, hs, Option.map_some, hsome, true_and]
        cases hthere : w.exists? host with
        | error f' =>
          have hnone : ¬ Registers base w r.staged host := fun h => by
            rw [h.there.2] at hthere
            cases hthere
          simp [← exists?_fault_iff (p := host), hthere, hnone]
        | ok there =>
          have hquiet : ¬ Barred w host f := fun h => by
            rw [exists?_fault_iff.mpr h] at hthere
            cases hthere
          cases there with
          | false =>
            have hnone : ¬ Registers base w r.staged host := fun h => by
              rw [h.there.2] at hthere
              cases hthere
            simp [hquiet, hnone]
          | true =>
            have hregisters : Registers base w r.staged host ↔
                ∃ q g, request? base host primary path script = some q ∧
                  (register w q).result = .ok g := by
              simp [Registers, hp, hs]
            rw [or_iff_right hquiet, hregisters]
            exact wireInto_fault_iff (hpath _ _ _ hs) hthere

/-! ### The whole integration -/

/-- Whether the layout of a project rests on its manifest. -/
def Consulted (h : Hints) : Prop := Text.nonEmpty h.host = none ∧ h.noHost = false

/-- The ways a fault comes of integrating artifacts. -/
inductive Escapes (base : Location) (w : Workspace) (o : Options) (as : List Artifact) : Fault → Prop
  -- The manifest cannot be looked up, or its text goes beyond a limit of the reader.
  | manifest {f : Fault} (consulted : Consulted o.hints) (barred : Barred w Manifest.file f) :
      Escapes base w o as f
  | beyond {t : Text} {e : Json.ReadError} (consulted : Consulted o.hints)
      (read : w.read Manifest.file = .ok t) (json : Json.read w.limits.nesting t.wide = .error e)
      (beyond : e.Beyond) : Escapes base w o as (.json e)
  -- The source root that it gives has a stray surrogate.
  | surrogate {m : Manifest} {given : Wide} {u : Unencodable} (consulted : Consulted o.hints)
      (loaded : Manifest.load w = .ok m) (selected : m.given? o.hints.project = some (some given))
      (stray : given.strays? = some u) : Escapes base w o as (faultOf w given u)
  -- The module below it cannot be looked up, or the component.
  | module {m : Manifest} {given : Option Text} {f : Fault} (consulted : Consulted o.hints)
      (loaded : Manifest.load w = .ok m)
      (selected : m.given? o.hints.project = some (given.map Text.wide))
      (barred : Barred w (modulePath (cleanSourceRoot given)) f) : Escapes base w o as f
  | component {m : Manifest} {given : Option Text} {f : Fault} (consulted : Consulted o.hints)
      (loaded : Manifest.load w = .ok m)
      (selected : m.given? o.hints.project = some (given.map Text.wide))
      (clear : ∀ f, ¬ Barred w (modulePath (cleanSourceRoot given)) f)
      (barred : Barred w (componentPath (cleanSourceRoot given)) f) : Escapes base w o as f
  -- A destination cannot be looked up when its turn comes.
  | destination {layout : Layout} {f : Fault} (located : find w o.hints = .ok layout)
      (halts : Halts layout.sourceRoot (as.flatMap Artifact.files) w f) : Escapes base w o as f
  -- There is a script to be wired, and the host cannot be looked up.
  | host {layout : Layout} {files : List Staged} {after : Workspace} {target : Text} {f : Fault}
      (located : find w o.hints = .ok layout)
      (staged : stage layout.sourceRoot as w = (.ok files, after)) (host : layout.host = some target)
      (chosen : (chosen? files).isSome = true) (barred : Barred after target f) : Escapes base w o as f
  -- It has been registered and is to be shown, and the template cannot be looked up.
  | template {layout : Layout} {files : List Staged} {after : Workspace} {target : Text} {f : Fault}
      (located : find w o.hints = .ok layout)
      (staged : stage layout.sourceRoot as w = (.ok files, after)) (host : layout.host = some target)
      (marked : o.usageMarker = true) (registers : Registers base after files target)
      (barred : Barred after layout.template f) : Escapes base w o as f

/-- Whether the manifest gives a source root that is no text, though it can be looked up: each of its
surrogates stands for an octet. -/
def Untold (w : Workspace) (h : Hints) : Prop :=
  Consulted h ∧ ∃ m given u, Manifest.load w = .ok m ∧ m.given? h.project = some (some given) ∧
    given.toText = .error u ∧ given.strays? = none

/-- What keeps a layout from being found escapes. -/
theorem find_escapes {as : List Artifact} (htold : ¬ Untold w o.hints)
    (hfind : find w o.hints = .error (.fault f)) : Escapes base w o as f := by
  obtain ⟨hunnamed, hunwanted, hload | ⟨m, given, hload, hgiven, hnone | ⟨t, rfl, hbelow⟩⟩⟩ :=
    find_fault_iff.mp hfind
  · rcases load_fault_iff.mp hload with hbarred | ⟨t, e, hread, hjson, hbeyond, rfl⟩
    · exact .manifest ⟨hunnamed, hunwanted⟩ hbarred
    · exact .beyond ⟨hunnamed, hunwanted⟩ hread hjson hbeyond
  · cases given with
    | none => cases hnone
    | some given =>
      rw [encodable] at hnone
      cases htext : given.toText with
      | ok t =>
        rw [htext] at hnone
        cases hnone
      | error u =>
        rw [htext] at hnone
        dsimp only at hnone
        cases hstray : given.strays? with
        | none => exact absurd ⟨⟨hunnamed, hunwanted⟩, m, given, u, hload, hgiven, htext, hstray⟩ htold
        | some u' =>
          rw [hstray] at hnone
          obtain rfl := Except.error.inj hnone
          exact .surrogate ⟨hunnamed, hunwanted⟩ hload hgiven hstray
  · rcases below_fault_iff.mp hbelow with hbarred | ⟨hclear, hbarred⟩
    · exact .module ⟨hunnamed, hunwanted⟩ hload hgiven hbarred
    · exact .component ⟨hunnamed, hunwanted⟩ hload hgiven hclear hbarred

theorem place_of_unlocated (hfind : find w o.hints = .error (.fault f)) :
    (place base w o r).report = .error f := by
  rw [place, hfind]

/-- What could be staged is wired as far as the host and the template can be looked up. -/
theorem place_of_staged {raw : Text} {files : List Staged} {after : Workspace}
    (hp : Response.parse? raw = some r.artifacts) (hfind : find w o.hints = .ok layout)
    (hstaged : stage layout.sourceRoot r.artifacts w = (.ok files, after)) :
    (place base w o r).report = .error f ↔ ∃ host, layout.host = some host ∧
      ((chosen? files).isSome = true ∧ Barred after host f ∨
        o.usageMarker = true ∧ Registers base after files host ∧ Barred after layout.template f) := by
  rw [place, hfind]
  dsimp only
  rw [hstaged]
  have hsr := isSourceRoot_of_find hfind
  exact wire_fault_iff (r := staged r layout files) rfl fun _ _ _ h => path_of_script? hp hsr hstaged h

/-- Whatever keeps artifacts from being staged and wired is one of these ways. -/
theorem escapes_of_place {raw : Text} (htold : ¬ Untold w o.hints)
    (hp : Response.parse? raw = some r.artifacts) (h : (place base w o r).report = .error f) :
    Escapes base w o r.artifacts f := by
  cases hfind : find w o.hints with
  | error e =>
    rw [place, hfind] at h
    cases e with
    | problem p => cases h
    | fault f' =>
      obtain rfl := Except.error.inj h
      exact find_escapes htold hfind
  | ok layout =>
    cases hstaged : stage layout.sourceRoot r.artifacts w with
    | mk result after =>
      cases result with
      | error f' =>
        rw [place, hfind] at h
        dsimp only at h
        rw [hstaged] at h
        obtain rfl := Except.error.inj h
        exact .destination hfind (stage_fault_iff.mp (congrArg Prod.fst hstaged))
      | ok files =>
        obtain ⟨host, hhost, ⟨hchosen, hbarred⟩ | ⟨hmark, hregisters, hbarred⟩⟩ :=
          (place_of_staged hp hfind hstaged).mp h
        · exact .host hfind hstaged hhost hchosen hbarred
        · exact .template hfind hstaged hhost hmark hregisters hbarred

/-- Each of these ways keeps artifacts from being staged and wired. -/
theorem place_of_escapes {raw : Text} (hp : Response.parse? raw = some r.artifacts)
    (h : Escapes base w o r.artifacts f) : (place base w o r).report = .error f := by
  cases h with
  | manifest consulted barred =>
    exact place_of_unlocated
      (find_fault_iff.mpr ⟨consulted.1, consulted.2, .inl (load_fault_iff.mpr (.inl barred))⟩)
  | beyond consulted read json beyond =>
    exact place_of_unlocated (find_fault_iff.mpr ⟨consulted.1, consulted.2,
      .inl (load_fault_iff.mpr (.inr ⟨_, _, read, json, beyond, rfl⟩))⟩)
  | @surrogate m given u consulted loaded selected stray =>
    refine place_of_unlocated (find_fault_iff.mpr ⟨consulted.1, consulted.2,
      .inr ⟨_, _, loaded, selected, .inl ?_⟩⟩)
    rw [encodable, stray]
    cases htext : given.toText with
    | ok t =>
      obtain rfl := Wide.toText_eq_ok_iff.mp htext
      rw [Text.strays?_wide] at stray
      cases stray
    | error u' => rfl
  | module consulted loaded selected barred =>
    exact place_of_unlocated (find_fault_iff.mpr ⟨consulted.1, consulted.2,
      .inr ⟨_, _, loaded, selected, .inr ⟨_, rfl, below_fault_iff.mpr (.inl barred)⟩⟩⟩)
  | component consulted loaded selected clear barred =>
    exact place_of_unlocated (find_fault_iff.mpr ⟨consulted.1, consulted.2,
      .inr ⟨_, _, loaded, selected, .inr ⟨_, rfl, below_fault_iff.mpr (.inr ⟨clear, barred⟩)⟩⟩⟩)
  | @destination layout _ located halts =>
    have hstaged := stage_fault_iff.mpr halts
    rw [place, located]
    dsimp only
    generalize stage layout.sourceRoot r.artifacts w = outcome at hstaged ⊢
    obtain ⟨result, after⟩ := outcome
    dsimp only at hstaged
    rw [hstaged]
  | host located staged host chosen barred =>
    exact (place_of_staged hp located staged).mpr ⟨_, host, .inl ⟨chosen, barred⟩⟩
  | template located staged host marked registers barred =>
    exact (place_of_staged hp located staged).mpr ⟨_, host, .inr ⟨marked, registers, barred⟩⟩

/-- **The artifacts of a response are staged and wired, or it is told why not, unless a fault escapes.** -/
theorem place_fault_iff {raw : Text} (htold : ¬ Untold w o.hints)
    (hp : Response.parse? raw = some r.artifacts) :
    (place base w o r).report = .error f ↔ Escapes base w o r.artifacts f :=
  ⟨escapes_of_place htold hp, place_of_escapes hp⟩

/-- A fault comes of integrating a response exactly when one escapes from its artifacts. -/
theorem integrate_fault_iff {raw : Text} (htold : ¬ Untold w o.hints) :
    (integrate base w o raw).report = .error f ↔
      ∃ as, Response.parse? raw = some as ∧ Escapes base w o as f := by
  rw [integrate, proceed]
  cases hp : Response.parse? raw with
  | none => simp
  | some as =>
    simp only [Option.some.injEq, exists_eq_left']
    exact place_fault_iff (r := { ({} : Report).reach .generated with artifacts := as }.reach .parsed)
      htold hp

/-- An orderly report is done or has failed. -/
theorem Orderly.ended {before after : Workspace} (h : Orderly before after r) :
    r.state = .done ∨ r.state = .failed := by
  have hlast := h.state
  have hcourse := h.course
  simp only [courses, List.mem_cons, List.not_mem_nil, or_false] at hcourse
  rcases hcourse with hv | hv | hv | hv | hv <;> rw [hv] at hlast
  · exact .inr (Option.some.inj hlast).symm
  · exact .inr (Option.some.inj hlast).symm
  · exact .inr (Option.some.inj hlast).symm
  · exact .inl (Option.some.inj hlast).symm
  · exact .inl (Option.some.inj hlast).symm

/-- Every file of an artifact is staged or recorded as failed, unless a destination cannot be looked up when
its turn comes. -/
theorem stageFiles_total_iff (sr : Text) (a : Artifact) (w : Workspace) :
    (∃ files after, stageFiles sr a.files w = (.ok files, after) ∧
      files.map (fun f => (f.path, f.kind)) = a.files.map fun g => (destination sr g.1, g.2.1)) ↔
      ∀ f, ¬ Halts sr a.files w f := by
  cases hstaged : stageFiles sr a.files w with
  | mk result after =>
    cases result with
    | error f =>
      exact iff_of_false (by simp) fun hall => hall f (stageFiles_fault_iff.mp (congrArg Prod.fst hstaged))
    | ok files =>
      refine iff_of_true ⟨files, after, rfl, stageFiles_paths hstaged⟩ fun f hhalts => ?_
      have hfault := stageFiles_fault_iff.mpr hhalts
      rw [hstaged] at hfault
      cases hfault

/-- **An integration comes to its end, or fails, exactly when no fault escapes from the artifacts of the
response**, whatever the response, the options and the workspace, if the source root is told, and what comes
of it otherwise is that fault.  Every file of an artifact is staged or recorded as failed unless a destination cannot be looked up
when its turn comes, and the manifest is loaded or told to be a problem unless it cannot be looked up or its
text goes beyond a limit of the reader. -/
theorem integrate_total_iff (base : Location) (w : Workspace) (o : Options) (raw : Text)
    (htold : ¬ Untold w o.hints) :
    ((∃ r, (integrate base w o raw).report = .ok r ∧ (r.state = .done ∨ r.state = .failed)) ↔
      ∀ as f, Response.parse? raw = some as → ¬ Escapes base w o as f) ∧
    (∀ f, (integrate base w o raw).report = .error f ↔
      ∃ as, Response.parse? raw = some as ∧ Escapes base w o as f) ∧
    (∀ (sr : Text) (a : Artifact), (∃ files after, stageFiles sr a.files w = (.ok files, after) ∧
        files.map (fun f => (f.path, f.kind)) = a.files.map fun g => (destination sr g.1, g.2.1)) ↔
      ∀ f, ¬ Halts sr a.files w f) ∧
    (∀ f, Manifest.load w = .error (.fault f) ↔ Barred w Manifest.file f ∨
      ∃ t e, w.read Manifest.file = .ok t ∧ Json.read w.limits.nesting t.wide = .error e ∧ e.Beyond ∧
        f = .json e) := by
  refine ⟨?_, fun f => integrate_fault_iff htold, fun sr a => stageFiles_total_iff sr a w,
    fun f => load_fault_iff⟩
  cases hr : (integrate base w o raw).report with
  | error f =>
    obtain ⟨as, hp, hescapes⟩ := (integrate_fault_iff htold).mp hr
    exact iff_of_false (by simp) fun hall => hall as f hp hescapes
  | ok r =>
    refine iff_of_true ⟨r, rfl, (report_orderly (.response raw) hr).ended⟩ fun as f hp hescapes => ?_
    rw [(integrate_fault_iff htold).mpr ⟨as, hp, hescapes⟩] at hr
    cases hr

/-- No fault escapes from a script for a named host. -/
theorem integrate_total_script : (Response.parse? scriptOnly).isSome = true ∧
    ¬ Untold hostOnly { host := some "m.ts".toList } ∧
    ∀ as f, Response.parse? scriptOnly = some as →
      ¬ Escapes [] hostOnly { hints := { host := some "m.ts".toList } } as f := by
  have hstate : (integrate [] hostOnly { hints := { host := some "m.ts".toList } }
      scriptOnly).report.toOption.map Report.state = some .done := by
    decide +kernel
  have htold : ¬ Untold hostOnly { host := some "m.ts".toList } := fun h => by cases h.1.1
  refine ⟨by decide +kernel, htold, (integrate_total_iff [] hostOnly
    { hints := { host := some "m.ts".toList } } scriptOnly htold).1.mp ?_⟩
  cases hr : (integrate [] hostOnly { hints := { host := some "m.ts".toList } } scriptOnly).report with
  | error f =>
    rw [hr] at hstate
    cases hstate
  | ok r =>
    rw [hr] at hstate
    exact ⟨r, rfl, .inl (Option.some.inj hstate)⟩

/-- A response whose marker has a NUL. -/
def nulledReply : Text := "### filename: a\x00.ts ###\n\x60\x60\x60ts\nx\n\x60\x60\x60".toList

/-- There is no report on a response whose marker has a NUL. -/
theorem integrate_total_nulled : ¬ ∀ (base : Location) (w : Workspace) (o : Options) (raw : Text),
    ∃ r, (integrate base w o raw).report = .ok r ∧ (r.state = .done ∨ r.state = .failed) := by
  intro hall
  obtain ⟨r, hr, -⟩ := hall [] Workspace.vacant { hints := { noHost := true } } nulledReply
  have hnone : (integrate [] Workspace.vacant { hints := { noHost := true } }
      nulledReply).report.toOption.isNone = true := by
    decide +kernel
  rw [hr] at hnone
  cases hnone

end Graft.Integration
