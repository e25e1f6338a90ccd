import Graft.Proofs.Layout.Parts
import Graft.Proofs.Staging.Containment
import Graft.Proofs.Workspace.Faults

/-
The source root of a project, and what keeps it from being looked up.

* `below_fault_iff` — there is no layout below a source root whose module or component cannot be looked up;
* `load_fault_iff` — **a manifest is loaded, or told to be a problem, unless it cannot be looked up or its
  text goes beyond a limit of the JSON reader**;
* `find_fault_iff` — **so is a layout found, unless moreover the source root of the project is no text, or
  there is no layout below it**.

Design notes: named hosts and the wish to extend none settle a layout without a look at the disk, so only
the way by the manifest has a fault.
-/
namespace Graft

open Graft.Path Workspace

/-- Whether a JSON text goes beyond a limit of its reader, rather than being none. -/
def Json.ReadError.Beyond : Json.ReadError → Prop
  | .malformed .. => False
  | .tooManyDigits _ | .tooDeep _ => True

instance : (e : Json.ReadError) → Decidable e.Beyond
  | .malformed .. => instDecidableFalse
  | .tooManyDigits _ | .tooDeep _ => instDecidableTrue

namespace Layout

variable {w : Workspace} {h hints : Hints} {m : Manifest} {project given : Option Text} {sr : Text}
  {layout : Layout} {f : Fault}

/-! ### The layout below a source root -/

/-- The path of a file in the application directory below a source root. -/
def partOf (sr name : Text) : Text := sr ++ '/' :: Staging.appDirectory ++ '/' :: name

/-- The path of the module below a source root. -/
def modulePath (sr : Text) : Text := partOf sr "app.module.ts".toList

/-- The path of the root component below a source root. -/
def componentPath (sr : Text) : Text := partOf sr "app.component.ts".toList


/-- The layout below a source root rests on two look-ups. -/
theorem below_eq (w : Workspace) (sr : Text) : below w sr =
    (ifFile w (modulePath sr)).bind fun module => (ifFile w (componentPath sr)).map fun component =>
      { sourceRoot := sr, module, component, host := module.or component } := by
  change ((ifFile w (modulePath sr)).bind fun module => (ifFile w (componentPath sr)).bind
    fun component => _) = _
  cases ifFile w (modulePath sr) with
  | error f => rfl
  | ok module => cases ifFile w (componentPath sr) <;> rfl

theorem ifFile_fault_iff {path : Text} : ifFile w path = .error f ↔ Barred w path f := by
  rw [← exists?_fault_iff, ifFile]
  cases w.exists? path <;> simp [Except.map]

/-- The layout below a source root, once it is known which of the two files are there. -/
theorem below_of_there {module component : Bool} (hmodule : w.exists? (modulePath sr) = .ok module)
    (hcomponent : w.exists? (componentPath sr) = .ok component) :
    ∃ layout, below w sr = .ok layout ∧ layout.sourceRoot = sr ∧
      layout.module = (if module then some (modulePath sr) else none) ∧
      layout.host = layout.module.or (if component then some (componentPath sr) else none) := by
  rw [below_eq, ifFile, ifFile, hmodule, hcomponent]
  exact ⟨_, rfl, rfl, rfl, rfl⟩

/-- There is no layout below a source root whose module cannot be looked up, or else its component. -/
theorem below_fault_iff : below w sr = .error f ↔ Barred w (modulePath sr) f ∨
    (∀ f', ¬ Barred w (modulePath sr) f') ∧ Barred w (componentPath sr) f := by
  rw [below_eq]
  simp only [← ifFile_fault_iff]
  cases ifFile w (modulePath sr) with
  | error f' => simp [Except.bind]
  | ok module => cases ifFile w (componentPath sr) <;> simp [Except.bind, Except.map]

/-! ### The manifest -/

/-- **A manifest is loaded, or told to be a problem, unless it cannot be looked up or its text goes beyond a
limit of the JSON reader.** -/
theorem load_fault_iff : Manifest.load w = .error (.fault f) ↔ Barred w Manifest.file f ∨
    ∃ t e, w.read Manifest.file = .ok t ∧ Json.read w.limits.nesting t.wide = .error e ∧ e.Beyond ∧
      f = .json e := by
  rw [← exists?_fault_iff, Manifest.load]
  cases hread : w.read Manifest.file with
  | error e =>
    cases hthere : w.exists? Manifest.file with
    | error f' => simp
    | ok there =>
      cases there with
      | false => simp
      | true =>
        cases e with
        | fault e => exact absurd (read_fault_iff.mp hread).1 (by decide)
        | path e => simp
  | ok t =>
    rw [exists?_of_read hread]
    dsimp only
    rw [Manifest.ofText]
    cases hjson : Json.read w.limits.nesting t.wide with
    | error e => cases e <;> simp [Json.ReadError.Beyond, hjson, eq_comm]
    | ok v =>
      refine iff_of_false ?_ (by simp [hjson])
      cases v with
      | obj members => cases hm : Manifest.ofMembers members <;> simp [Except.mapError, hm]
      | _ => simp

theorem ofManifest_of_given (hgiven : m.given? project = some (given.map Text.wide)) :
    ofManifest w m project = (below w (cleanSourceRoot given)).mapError .fault := by
  rw [Manifest.given?] at hgiven
  rw [ofManifest, hgiven]
  dsimp only
  rw [encodable_eq_ok.mpr rfl]
  rfl

theorem ofManifest_of_none (hnone : m.given? project = none) :
    ∃ p, ofManifest w m project = .error (.problem p) := by
  rw [Manifest.given?] at hnone
  rw [ofManifest, hnone]
  exact ⟨_, rfl⟩

theorem ofManifest_fault_iff : ofManifest w m project = .error (.fault f) ↔
    ∃ given, m.given? project = some given ∧ (encodable w given = .error f ∨
      ∃ t, given = t.map Text.wide ∧ below w (cleanSourceRoot t) = .error f) := by
  cases hgiven : m.given? project with
  | none =>
    obtain ⟨p, hp⟩ := ofManifest_of_none (w := w) hgiven
    simp [hp]
  | some given =>
    rw [ofManifest, Manifest.given? ] at *
    simp only [hgiven, Option.some.injEq, exists_eq_left', ← encodable_eq_ok (w := w)]
    cases encodable w given with
    | error f' => simp [Except.bind, Except.mapError]
    | ok t =>
      simp only [Except.bind, reduceCtorEq, false_or, Except.ok.injEq, exists_eq_left']
      cases below w (cleanSourceRoot t) <;> simp [Except.mapError]

/-- **A layout is found, or there is a problem with the manifest, unless the manifest has a fault, or the
source root that it gives to the project is no text, or there is no layout below it.** -/
theorem find_fault_iff : find w h = .error (.fault f) ↔
    Text.nonEmpty h.host = none ∧ h.noHost = false ∧
      (Manifest.load w = .error (.fault f) ∨ ∃ m given, Manifest.load w = .ok m ∧
        m.given? h.project = some given ∧ (encodable w given = .error f ∨
          ∃ t, given = t.map Text.wide ∧ below w (cleanSourceRoot t) = .error f)) := by
  rw [find]
  cases hhost : Text.nonEmpty h.host with
  | some host => simp
  | none =>
    cases hno : h.noHost with
    | true => simp
    | false =>
      cases hload : Manifest.load w with
      | error e => simp [Except.bind]
      | ok m => simp [Except.bind, ofManifest_fault_iff]

/-- A layout that is found lies below a source root that has been cleaned. -/
theorem isSourceRoot_of_find (hfind : find w h = .ok layout) :
    Staging.IsSourceRoot layout.sourceRoot := by
  rw [find] at hfind
  cases hhost : Text.nonEmpty h.host with
  | some host =>
    rw [hhost] at hfind
    obtain rfl := Except.ok.inj hfind
    exact Staging.isSourceRoot_clean _
  | none =>
    rw [hhost] at hfind
    cases hno : h.noHost with
    | true =>
      rw [hno] at hfind
      obtain rfl := Except.ok.inj hfind
      exact Staging.isSourceRoot_clean _
    | false =>
      rw [hno] at hfind
      cases hload : Manifest.load w with
      | error e =>
        rw [hload] at hfind
        cases hfind
      | ok m =>
        rw [hload] at hfind
        obtain ⟨given, -, hbelow⟩ := ofManifest_eq_ok.mp hfind
        rw [sourceRoot_of_below hbelow]
        exact Staging.isSourceRoot_clean _

end Layout
end Graft
