import Graft.Proofs.Registration.Totality
import Graft.Proofs.Workspace.Faults
import Graft.Proofs.Workspace.Files
import Graft.Registration.Host

/-
How a registration in a host file ends.

* `write_of_read` — a host that was read is written, or it is refused and left as it is;
* `Told w r o` — the ways a registration may end that are told, each with its notices, its result and what
  is left;
* `Ending w r o` — all ways it may end;
* `register_ending` — **a registration ends in one of them**;
* `Ending.planned`, `Ending.unchanged`, `register_fault_iff` — what a result shows;
* `told_register` — **every registration is told**, but for a path with a NUL.

Design notes: what is planned lies in the host, so no insertion is ever refused.  A host that could be read is
a file, so its directories are there already; it can be written unless it is locked.
-/
namespace Graft.Registration

open Workspace

variable {w : Workspace} {r : Request} {o : Outcome} {source : Text} {edits : List Insertion}

/-- A file that was read is written, or it is refused and left as it is. -/
theorem write_of_read {path old : Text} (h : w.read path = .ok old) (t : Text) :
    (∃ new w', w.write path t = (.ok new, w')) ∨ ∃ e, w.write path t = (.error (.path e), w) := by
  obtain ⟨l, octets, hl, hreached, hheld, -⟩ := read_eq_ok_held.mp h
  have hw := written w path t
  generalize w.write path t = result at hw ⊢
  cases hw with
  | refused refused =>
    rw [hl] at refused
    cases refused
  | unreached at_ met =>
    obtain rfl := Except.ok.inj (hl.symm.trans at_)
    rw [hreached] at met
    cases met
  | barred at_ reached bars => exact .inr ⟨_, rfl⟩
  | cut at_ reached way long free met =>
    -- there is no directory left to be made on the way to a file
    obtain rfl := Except.ok.inj (hl.symm.trans at_)
    obtain ⟨locked, hv⟩ := Tree.contents_eq_ok.mp (held_eq_some.mp hheld)
    rw [way, Tree.visit_append_of_error free.1] at hv
    cases hv
  | wrote at_ wrote => exact .inl ⟨_, _, rfl⟩

/-! ### Endings -/

/-- The ways a registration may end that are told. -/
inductive Told (w : Workspace) (r : Request) : Outcome → Prop
  -- The host cannot be read.
  | unreadable {e : PathError} (read : w.read r.target = .error (.path e)) :
      Told w r ⟨.error (.unreadable r.target e), [.unreadable r.target e.message], w⟩
  -- The host cannot be extended.
  | mismatched {source : Text} {m : Mismatch} (read : w.read r.target = .ok source)
      (planned : plan source r = .error m) :
      Told w r ⟨.error (.mismatch m), [.mismatched r.target m.message], w⟩
  -- The host has all there is to insert.
  | present {source : Text} (read : w.read r.target = .ok source) (planned : plan source r = .ok []) :
      Told w r ⟨.ok ⟨r.target, r.role, []⟩, [.present r.target], w⟩
  -- The host, and no other file, is written, with all insertions made.
  | written {source text : Text} {edits : List Insertion} {after : Workspace}
      (read : w.read r.target = .ok source) (planned : plan source r = .ok edits) (some : edits ≠ [])
      (made : Insertion.applyAll source edits = .ok text)
      (write : ∃ new, w.write r.target text = (.ok new, after)) (now : after.read r.target = .ok text)
      (elsewhere : ∀ l, w.locate r.target ≠ .ok l → after.held l = w.held l) :
      Told w r ⟨.ok ⟨r.target, r.role, edits⟩,
        [.planned r.target r.symbol r.role edits, .applied r.target edits.length], after⟩
  -- The insertions are planned, and the host cannot be written.
  | barred {source text : Text} {edits : List Insertion} {e : PathError}
      (read : w.read r.target = .ok source) (planned : plan source r = .ok edits) (some : edits ≠ [])
      (made : Insertion.applyAll source edits = .ok text)
      (write : w.write r.target text = (.error (.path e), w)) :
      Told w r ⟨.error (.unwritten e), [.planned r.target r.symbol r.role edits], w⟩

/-- The ways a registration may end. -/
inductive Ending (w : Workspace) (r : Request) : Outcome → Prop
  | told {o : Outcome} (h : Told w r o) : Ending w r o
  -- The path cannot be looked up.
  | faulted (nul : Nulled r.target) : Ending w r ⟨.error (.fault .nul), [], w⟩

theorem insert_told (hread : w.read r.target = .ok source) (hplan : plan source r = .ok edits)
    (hne : edits ≠ []) : Told w r (insert w r source edits) := by
  have hmade := applyAll_of_fits (plan_fits hplan)
  unfold insert
  rw [hmade]
  dsimp only
  rcases write_of_read hread ((Insertion.ordered edits).foldr Insertion.apply source) with
    ⟨new, after, hwrite⟩ | ⟨e, hwrite⟩
  · rw [hwrite]
    have hrewritten : Rewritten w r.target source _ after := ⟨hread, new, hwrite⟩
    refine .written hread hplan hne hmade ⟨new, hwrite⟩ (hrewritten.read_self rfl) fun l hl => ?_
    obtain ⟨l', hl', -⟩ := hrewritten.writes
    rw [held_write hwrite hl', if_neg]
    rintro rfl
    exact hl hl'
  · rw [hwrite]
    exact .barred hread hplan hne hmade hwrite

/-- **A registration ends in one of these ways.** -/
theorem register_ending (w : Workspace) (r : Request) : Ending w r (register w r) := by
  unfold register
  cases hread : w.read r.target with
  | error e =>
    cases e with
    | path e => exact .told (.unreadable hread)
    | fault f =>
      obtain ⟨hnul, rfl⟩ := read_fault_iff.mp hread
      exact .faulted hnul
  | ok source =>
    dsimp only
    cases hplan : plan source r with
    | error m => exact .told (.mismatched hread hplan)
    | ok edits =>
      cases edits with
      | nil => exact .told (.present hread hplan)
      | cons e es => exact .told (insert_told hread hplan (List.cons_ne_nil e es))

/-! ### Results -/

/-- A host with nothing to insert is left as it is. -/
theorem register_of_nil (hread : w.read r.target = .ok source) (hplan : plan source r = .ok []) :
    register w r = ⟨.ok ⟨r.target, r.role, []⟩, [.present r.target], w⟩ := by
  simp only [register, hread, hplan]

/-- A registration that succeeds has read the host, and planned what it reports. -/
theorem Ending.planned (h : Ending w r o) {g : Registered} (hg : o.result = .ok g) :
    ∃ source, w.read r.target = .ok source ∧ plan source r = .ok g.edits := by
  cases h with
  | told h =>
    cases h with
    | unreadable _ | mismatched _ _ => cases hg
    | present read planned =>
      cases hg
      exact ⟨_, read, planned⟩
    | written read planned =>
      cases hg
      exact ⟨_, read, planned⟩
    | barred _ _ _ _ _ => cases hg
  | faulted _ => cases hg

/-- A registration that fails leaves the workspace as it is. -/
theorem Ending.unchanged (h : Ending w r o) {e : HostError} (he : o.result = .error e) :
    o.workspace = w := by
  cases h with
  | told h =>
    cases h with
    | unreadable _ | mismatched _ _ | barred _ _ _ _ _ => rfl
    | present _ _ | written _ _ _ _ _ _ _ => cases he
  | faulted _ => rfl

/-- A registration reports unless the host cannot be looked up. -/
theorem register_fault_iff {f : Fault} :
    (register w r).result = .error (.fault f) ↔ Nulled r.target ∧ f = .nul := by
  constructor
  · intro h
    have hending := register_ending w r
    generalize register w r = o at h hending
    cases hending with
    | told h' => cases h' <;> cases h
    | faulted nul =>
      cases h
      exact ⟨nul, rfl⟩
  · rintro ⟨hnul, rfl⟩
    simp only [register, read_fault_iff.mpr ⟨hnul, rfl⟩]

/-- **Every registration is told**, but for a path with a NUL. -/
theorem told_register (hnul : '\x00' ∉ r.target) : Told w r (register w r) := by
  have hending := register_ending w r
  generalize register w r = o at hending
  cases hending with
  | told h => exact h
  | faulted nul => exact absurd nul.1 hnul

end Graft.Registration
