import Graft.Proofs.Integration.Stages
import Graft.Proofs.Name.Identifier
import Graft.Proofs.Registration.Host
import Graft.Proofs.Registration.Specifier
import Graft.Proofs.Registration.Statement

/-
What the host imports once a class has been registered.

* `Wired base w r path script source q` — how a report came to register a class: the script that it is
  taken from, the host as it was, and the request;
* `integrate_wired` — every report with a registration came about so;
* `isIdentifier_of_request?` — the class that is registered has an identifier for a name;
* `integrate_import_iff` — **a planned import statement names the class and a relative specifier exactly
  when the class is not called `type`, the quote closes the specifier, and the script is neither named like
  a directory that the host lies in nor reached by way of a dot**.

Design notes: a report is only ever extended on its way, so what it says of the script and of the host is
what was used to make the request.
-/
namespace Graft.Integration

open Staging Registration

variable {base : Location} {w after : Workspace} {o : Options} {layout : Layout} {r r' : Report}

/-! ### The way to a registration -/

/-- How a report came to register a class in a workspace. -/
structure Wired (base : Location) (w : Workspace) (r : Report) (path script source : Text)
    (q : Request) : Prop where
  host : r.host = some q.target
  -- The class is taken from the script of the primary artifact, which went to `path`.
  request : ∃ primary, r.primary = some primary ∧ script? r.staged primary = some (path, script) ∧
    request? base q.target primary path script = some q
  -- The host held `source`.
  held : w.read q.target = .ok source
  edits : ∃ g, r.registered = some g ∧ plan source q = .ok g.edits

theorem target_of_request? {host : Text} {primary : Staged} {path script : Text} {q : Request}
    (h : request? base host primary path script = some q) : q.target = host ∧
      q.symbol = (Name.exported? script).getD (Name.symbol primary.artifact.path Name.componentSuffix) ∧
      specifier? base host path = some q.importPath := by
  obtain ⟨p, hp, rfl⟩ := Option.map_eq_some_iff.mp h
  exact ⟨rfl, rfl, hp⟩

/-- What a report with a registration keeps of the one it comes of. -/
def SameFiles (r r' : Report) : Prop :=
  r'.artifacts = r.artifacts ∧ r'.staged = r.staged ∧ r'.layout = r.layout

/-- A registration that is reported is that of the script which was found. -/
theorem Registering.wired {host path script : Text} {primary : Staged} {q : Request}
    (hways : Registering w o layout primary q r r' after)
    (hq : request? base host primary path script = some q) (hp : .patched ∈ r'.visited)
    (hnew : .patched ∉ r.visited) (hhost : r.host = some host) (hprimary : r.primary = some primary)
    (hscript : script? r.staged primary = some (path, script)) :
    SameFiles r r' ∧ ∃ source, Wired base w r' path script source q := by
  obtain ⟨htarget, -, -⟩ := target_of_request? hq
  rw [← htarget] at hhost hq
  cases hways with
  | refused i =>
    have hdone : .patched ∈ r.visited ++ [.done] := hp
    simp [hnew] at hdone
  | @hidden g made =>
    obtain ⟨source, hread, hplan⟩ := (register_ending _ _).planned made
    exact ⟨⟨rfl, rfl, rfl⟩, source, hhost, ⟨primary, hprimary, hscript, hq⟩, hread, g, rfl, hplan⟩
  | @shown g _ _ made _ displayed =>
    obtain ⟨source, hread, hplan⟩ := (register_ending _ _).planned made
    obtain ⟨marker, warnings, rfl⟩ := display_eq displayed
    exact ⟨⟨rfl, rfl, rfl⟩, source, hhost, ⟨primary, hprimary, hscript, hq⟩, hread, g, rfl, hplan⟩

theorem wire_wired (hr : (wire base w o layout r).report = .ok r') (hp : .patched ∈ r'.visited)
    (hnew : .patched ∉ r.visited) (hhost : r.host = layout.host) :
    SameFiles r r' ∧ ∃ path script source q, Wired base w r' path script source q := by
  rcases wire_cases hr with ⟨i, rfl, -⟩ | ⟨host, primary, path, script, hlayout, hprimary, hscript, -, hinto⟩
  · have hdone : .patched ∈ r.visited ++ [.done] := hp
    simp [hnew] at hdone
  · rw [hinto] at hr
    obtain ⟨q, after, hq, -, hways⟩ := wireInto_cases hr
    obtain ⟨hsame, source, hwired⟩ := hways.wired hq hp hnew (hhost.trans hlayout) hprimary hscript
    exact ⟨hsame, path, script, source, q, hwired⟩

/-- Every report of a response with a registration came about by staging its artifacts and wiring the
script of the primary one. -/
theorem integrate_wired {raw : Text} (hr : (integrate base w o raw).report = .ok r)
    (hp : .patched ∈ r.visited) : ∃ layout after, r.layout = some layout ∧
      stage layout.sourceRoot r.artifacts w = (.ok r.staged, after) ∧
      ∃ path script source q, Wired base after r path script source q := by
  rcases proceed_cases hr with ⟨rfl, -⟩ | ⟨artifacts, -, hplaced⟩
  · exact absurd hp (by decide)
  rw [integrate, hplaced] at hr
  rcases place_cases hr with ⟨problem, rfl, -⟩ | ⟨layout, files, after, -, hstage, hwire⟩
  · have hfailed : .patched ∈ [State.start, .generated, .parsed, .failed] := hp
    exact absurd hfailed (by decide)
  · rw [hwire] at hr
    have hnew : .patched ∉ (staged ({ ({} : Report).reach .generated with artifacts }.reach .parsed)
        layout files).visited := by
      show .patched ∉ [State.start, .generated, .parsed, .staged, .located]
      decide
    obtain ⟨⟨hartifacts, hstaged, hlayout⟩, hwired⟩ := wire_wired hr hp hnew rfl
    refine ⟨layout, after, hlayout, ?_, hwired⟩
    rw [hartifacts, hstaged]
    exact hstage

/-! ### What is imported -/

/-- The class that is registered has an identifier for a name. -/
theorem isIdentifier_of_request? {host path script : Text} {primary : Staged} {q : Request}
    (h : request? base host primary path script = some q) : IsIdentifier q.symbol := by
  obtain ⟨-, hsymbol, -⟩ := target_of_request? h
  rw [hsymbol]
  cases hname : Name.exported? script with
  | none => exact Name.isIdentifier_symbol primary.artifact.path
  | some name => exact Name.isIdentifier_of_exported? hname

theorem Wired.isIdentifier {path script source : Text} {q : Request}
    (h : Wired base w r path script source q) : IsIdentifier q.symbol := by
  obtain ⟨primary, -, -, hq⟩ := h.request
  exact isIdentifier_of_request? hq

theorem Wired.specifier {path script source : Text} {q : Request}
    (h : Wired base w r path script source q) : specifier? base q.target path = some q.importPath := by
  obtain ⟨primary, -, -, hq⟩ := h.request
  exact (target_of_request? hq).2.2

theorem mem_of_mem_planImport {source : Text} {q : Request} {es : List Insertion}
    (hplan : plan source q = .ok es) {e : Insertion}
    (he : e ∈ planImport source (Script.imports (Script.tokens source)) q) : e ∈ es := by
  unfold plan at hplan
  dsimp only at hplan
  split at hplan
  · cases hplan
  · obtain ⟨list, -, rfl⟩ := exists_of_map_eq_ok hplan
    exact List.mem_append_left list he

/-- What a class, a specifier and its quote ask for, and where the script and the host have to be, for the
host to import the script. -/
structure Importable (base : Location) (path : Text) (q : Request) (quote : Char) : Prop where
  notType : q.symbol ≠ "type".toList
  -- The quote ends the string, and does not do so before the end of the specifier.
  closed : Script.closesString quote (q.importPath ++ [quote]) = true
  -- The script is not named like the host's directory or one above it.
  apart : ¬ importedPlace base path <+: hostDirectory base q.target
  -- The way down from the host's directory does not begin with a dot.
  undotted : ∀ s ss, importedPlace base path = hostDirectory base q.target ++ s :: ss →
    s.head? ≠ some '.'

/-- **A planned import statement names the class and a relative specifier exactly when the class is not
called `type`, the quote closes the specifier, and the script is neither named like a directory that the
host lies in nor reached by way of a dot.** -/
theorem integrate_import_iff (hbase : base.Resolved) {raw : Text}
    (hr : (integrate base w o raw).report = .ok r) (hp : .patched ∈ r.visited) :
    ∃ layout after path script source q, r.layout = some layout ∧
      stage layout.sourceRoot r.artifacts w = (.ok r.staged, after) ∧
      Wired base after r path script source q ∧
      ∀ e ∈ planImport source (Script.imports (Script.tokens source)) q,
        (∃ g ∈ r.registered, e ∈ g.edits) ∧
        (ReadsAs (Text.trim (· == '\n') e.text) q.symbol q.importPath ∧ IsRelative q.importPath ↔
          Importable base path q (lastQuote (Script.imports (Script.tokens source)))) := by
  obtain ⟨layout, after, hlayout, hstage, path, script, source, q, hwired⟩ := integrate_wired hr hp
  refine ⟨layout, after, path, script, source, q, hlayout, hstage, hwired, fun e he => ⟨?_, ?_⟩⟩
  · obtain ⟨g, hg, hplan⟩ := hwired.edits
    exact ⟨g, hg, mem_of_mem_planImport hplan he⟩
  · rw [trim_planImport he, readsAs_importLine_iff hwired.isIdentifier (isQuote_lastQuote source),
      isRelative_specifier_iff hbase hwired.specifier]
    exact ⟨fun ⟨⟨h1, h2⟩, h3, h4⟩ => ⟨h1, h2, h3, h4⟩, fun h => ⟨⟨h.notType, h.closed⟩, h.apart, h.undotted⟩⟩

/-! ### Runs -/

/-- The path of the script that a report with a registration came of, and the request. -/
def requested (base : Location) (r : Report) : Option (Text × Request) :=
  r.host.bind fun host => r.primary.bind fun primary => (script? r.staged primary).bind fun s =>
    (request? base host primary s.1 s.2).map fun q => (s.1, q)

/-- What the host held once the artifacts of a report were written. -/
def hostText (w : Workspace) (r : Report) : Option Text :=
  r.layout.bind fun layout => r.host.bind fun host =>
    ((stage layout.sourceRoot r.artifacts w).2.read host).toOption

theorem Wired.requested_eq {path script source : Text} {q : Request}
    (h : Wired base w r path script source q) : requested base r = some (path, q) := by
  obtain ⟨primary, hprimary, hscript, hq⟩ := h.request
  rw [requested, h.host, Option.bind_some, hprimary, Option.bind_some, hscript, Option.bind_some, hq]
  rfl

theorem Wired.hostText_eq {path script source : Text} {q : Request}
    (hlayout : r.layout = some layout)
    (hstage : stage layout.sourceRoot r.artifacts w = (.ok r.staged, after))
    (h : Wired base after r path script source q) : hostText w r = some source := by
  rw [hostText, hlayout, Option.bind_some, h.host, Option.bind_some, hstage, h.held]
  rfl

/-- What is known of the report of a run that has been worked out. -/
theorem exists_report (base : Location) (w : Workspace) (out : Outcome) {visited : List State}
    {x : Text × Request} {source : Text}
    (h : out.report.toOption.map (fun r => (r.visited, requested base r, hostText w r)) =
      some (visited, some x, some source)) : ∃ r, out.report = .ok r ∧ r.visited = visited ∧
        requested base r = some x ∧ hostText w r = some source := by
  cases hr : out.report with
  | error f =>
    rw [hr] at h
    cases h
  | ok r =>
    rw [hr] at h
    obtain ⟨hvisited, h⟩ := Prod.mk.inj (Option.some.inj h)
    obtain ⟨hrequested, htext⟩ := Prod.mk.inj h
    exact ⟨r, rfl, hvisited, hrequested, htext⟩

def hostOnlyText : Text := "@NgModule(\x7bdeclarations: []\x7d)".toList

/-- The request for the class of a script in the application directory. -/
def scriptRequest : Request := ⟨"m.ts".toList, ['W'], "./src/app/w".toList, .declared⟩

/-- The class of a script in the application directory is imported from there. -/
theorem integrate_import_script : ∃ r e,
    (integrate [] hostOnly { hints := { host := some "m.ts".toList } } scriptOnly).report = .ok r ∧
      .patched ∈ r.visited ∧ (∃ g ∈ r.registered, e ∈ g.edits) ∧
      ReadsAs (Text.trim (· == '\n') e.text) ['W'] "./src/app/w".toList ∧
      IsRelative "./src/app/w".toList := by
  have h : (integrate [] hostOnly { hints := { host := some "m.ts".toList } }
      scriptOnly).report.toOption.map (fun r => (r.visited, requested [] r, hostText hostOnly r)) =
        some (located ++ [.patched, .done], some ("src/app/w.ts".toList, scriptRequest),
          some hostOnlyText) := by
    decide +kernel
  obtain ⟨r, hr, hvisited, hrequested, htext⟩ := exists_report [] hostOnly _ h
  have hp : .patched ∈ r.visited := by
    rw [hvisited]
    decide
  obtain ⟨layout, after, path, script, source, q, hlayout, hstage, hwired, hedits⟩ :=
    integrate_import_iff (fun s hs => by cases hs) hr hp
  obtain ⟨rfl, rfl⟩ := Prod.mk.inj (Option.some.inj (hwired.requested_eq.symm.trans hrequested))
  obtain rfl := Option.some.inj ((hwired.hostText_eq hlayout hstage).symm.trans htext)
  have he : ⟨0, importLine ['W'] "./src/app/w".toList '\'' ++ ['\n']⟩ ∈
      planImport hostOnlyText (Script.imports (Script.tokens hostOnlyText)) scriptRequest := by
    decide +kernel
  have hplaces : importedPlace [] "src/app/w.ts".toList = ["src".toList, "app".toList, "w".toList] ∧
      hostDirectory [] "m.ts".toList = [] := by
    decide +kernel
  have himportable : Importable [] "src/app/w.ts".toList scriptRequest
      (lastQuote (Script.imports (Script.tokens hostOnlyText))) := by
    refine ⟨by decide, by decide +kernel, ?_, fun s ss hdown => ?_⟩
    · show ¬ importedPlace [] "src/app/w.ts".toList <+: hostDirectory [] "m.ts".toList
      rw [hplaces.1, hplaces.2]
      decide
    · change importedPlace [] "src/app/w.ts".toList = hostDirectory [] "m.ts".toList ++ s :: ss at hdown
      rw [hplaces.1, hplaces.2] at hdown
      rw [← (List.cons.inj hdown).1]
      decide
  obtain ⟨hmade, hiff⟩ := hedits _ he
  obtain ⟨hreads, hrelative⟩ := hiff.mpr himportable
  exact ⟨r, _, hr, hp, hmade, hreads, hrelative⟩

/-- A workspace that holds a host in the application directory. -/
def nestedHost : Workspace :=
  { root := []
    disk := .directory [("src".toList, .directory [("app".toList, .directory
      [("m.ts".toList, .file (Utf8.encode hostOnlyText))])])] }

/-- A response with one script, whose name begins with a dot. -/
def dottedScript : Text :=
  "### filename: .w.ts ###\n\x60\x60\x60ts\nexport class W \x7b\x7d\n\x60\x60\x60".toList

/-- The request for its class: the specifier does not say where the script is. -/
def dottedRequest : Request := ⟨"src/app/m.ts".toList, ['W'], ".w".toList, .declared⟩

/-- A script beside the host whose name begins with a dot is imported as if it were a package. -/
theorem integrate_import_dotted :
    ¬ ∀ (base : Location) (w : Workspace) (o : Options) (raw : Text) (r : Report),
      base.Resolved → (integrate base w o raw).report = .ok r → .patched ∈ r.visited →
      ∃ layout after path script source q, r.layout = some layout ∧
        stage layout.sourceRoot r.artifacts w = (.ok r.staged, after) ∧
        Wired base after r path script source q ∧
        ∀ e ∈ planImport source (Script.imports (Script.tokens source)) q,
          ReadsAs (Text.trim (· == '\n') e.text) q.symbol q.importPath ∧ IsRelative q.importPath := by
  intro hall
  have h : (integrate [] nestedHost { hints := { host := some "src/app/m.ts".toList } }
      dottedScript).report.toOption.map (fun r => (r.visited, requested [] r, hostText nestedHost r)) =
        some (located ++ [.patched, .done], some ("src/app/.w.ts".toList, dottedRequest),
          some hostOnlyText) := by
    decide +kernel
  obtain ⟨r, hr, hvisited, hrequested, htext⟩ := exists_report [] nestedHost _ h
  have hp : .patched ∈ r.visited := by
    rw [hvisited]
    decide
  obtain ⟨layout, after, path, script, source, q, hlayout, hstage, hwired, hedits⟩ :=
    hall _ _ _ _ r (fun s hs => by cases hs) hr hp
  obtain ⟨rfl, rfl⟩ := Prod.mk.inj (Option.some.inj (hwired.requested_eq.symm.trans hrequested))
  obtain rfl := Option.some.inj ((hwired.hostText_eq hlayout hstage).symm.trans htext)
  have he : ⟨0, importLine ['W'] ".w".toList '\'' ++ ['\n']⟩ ∈
      planImport hostOnlyText (Script.imports (Script.tokens hostOnlyText)) dottedRequest := by
    decide +kernel
  obtain ⟨-, hrelative⟩ := hedits _ he
  rcases hrelative.lead with hlead | hlead
  · exact absurd hlead (by decide)
  · exact absurd hlead (by decide)

end Graft.Integration
