import Graft.Proofs.Disk.Steps
import Graft.Workspace

/-
What a write comes to.

* `Wrote w l t w'` — a text put at a location;
* `Written w path t`, `written` — **a write is refused for its path, or cannot look up its location, or is
  barred, or is cut short at a name that is too long, or puts its text there**;
* `Later w w'` — a workspace later on: directories and files stay, and so do root and limits;
* `later_write` — **a write leads to a later workspace, whatever it comes to**;
* `Later.barrier?_eq_some`, `Later.barrier?_eq` — what keeps a location from being looked up keeps it
  later, and nothing new keeps the location of a file;
* `contents_of_error` — a write that fails leaves all files as they are;
* `eq_or_cut_of_error` — and the directories as well, unless a name is too long.
-/
namespace Graft.Workspace

variable {w w' v : Workspace} {path t : Text} {l m : Location} {o : Obstacle} {e : Error}

theorem barrier?_eq_none_iff : w.barrier? l = none ↔
    Limits.exceeds w.limits.path l.text = false ∧ w.disk.barrier? w.limits.name l = none := by
  rw [barrier?]
  cases Limits.exceeds w.limits.path l.text <;> simp

/-- A text put at a location that can be looked up, and that nothing bars. -/
structure Wrote (w : Workspace) (l : Location) (t : Text) (w' : Workspace) : Prop where
  reached : w.barrier? l = none
  clear : w.disk.bars? l = none
  put : w' = { w with disk := w.disk.put l (.file (Utf8.encode t)) }
  found : w'.barrier? l = none

/-- What a write comes to. -/
inductive Written (w : Workspace) (path t : Text) : Except Error Bool × Workspace → Prop
  | refused {e : Error} (refused : w.locate path = .error e) : Written w path t (.error e, w)
  | unreached {l : Location} {o : Obstacle} (at_ : w.locate path = .ok l)
      (met : w.barrier? l = some o) : Written w path t (.error (.fault (.barred ⟨o, l.text⟩)), w)
  | barred {l p : Location} {o : Obstacle} (at_ : w.locate path = .ok l)
      (reached : w.barrier? l = none) (bars : w.disk.bars? l = some (o, p)) :
      Written w path t (fail path (.unwritten ⟨o, p.text⟩), w)
  -- Directories are made down to a name that is too long.
  | cut {l q : Location} {s : Text} {r : List Text} (at_ : w.locate path = .ok l)
      (reached : w.barrier? l = none) (way : l = q ++ s :: r)
      (long : Limits.exceeds w.limits.name s = true) (free : w.disk.Free q)
      (met : ({ w with disk := w.disk.put q .empty } : Workspace).barrier? l = some .tooLong) :
      Written w path t (fail path (.unwritten ⟨.tooLong, (q ++ [s]).text⟩),
        { w with disk := w.disk.put q .empty })
  | wrote {l : Location} {w' : Workspace} (at_ : w.locate path = .ok l) (wrote : Wrote w l t w') :
      Written w path t (.ok !w.disk.exists? l, w')

/-- **What a write comes to.** -/
theorem written (w : Workspace) (path t : Text) : Written w path t (w.write path t) := by
  rw [write]
  cases hl : w.locate path with
  | error e => exact .refused hl
  | ok l =>
    dsimp only
    cases hmet : w.barrier? l with
    | some o => exact .unreached hl hmet
    | none =>
      obtain ⟨hpath, hname⟩ := barrier?_eq_none_iff.mp hmet
      have hstored := Tree.stored hname (Utf8.encode t)
      generalize w.disk.store w.limits.name l (Utf8.encode t) = stored at hstored ⊢
      cases hstored with
      | written clear reached =>
        exact .wrote hl ⟨hmet, clear, rfl, barrier?_eq_none_iff.mpr ⟨hpath, reached⟩⟩
      | @barred b bars => exact .barred hl hmet bars
      | cut clear way long free reached =>
        refine .cut hl hmet way long free ?_
        rw [barrier?, if_neg (by simp [hpath])]
        exact reached

/-- What a write that succeeds comes to. -/
theorem wrote_of_ok {new : Bool} (h : w.write path t = (.ok new, w')) :
    ∃ l, w.locate path = .ok l ∧ Wrote w l t w' ∧ new = !w.disk.exists? l := by
  have hw := written w path t
  rw [h] at hw
  cases hw with
  | wrote at_ wrote => exact ⟨_, at_, wrote, rfl⟩

/-! ### Later -/

/-- A workspace later on. -/
structure Later (w w' : Workspace) : Prop where
  root : w'.root = w.root
  limits : w'.limits = w.limits
  disk : Tree.Extends w.disk w'.disk

theorem Later.refl (w : Workspace) : Later w w := ⟨rfl, rfl, .refl _⟩

theorem Later.trans (h : Later w w') (h' : Later w' v) : Later w v where
  root := h'.root.trans h.root
  limits := h'.limits.trans h.limits
  disk := h.disk.trans h'.disk

theorem Later.locate_eq (h : Later w w') (path : Text) : w'.locate path = w.locate path := by
  rw [locate, locate, h.root]

/-- What keeps a location from being looked up keeps it later. -/
theorem Later.barrier?_eq_some (h : Later w w') (hl : w.barrier? l = some o) :
    w'.barrier? l = some o := by
  rw [barrier?] at hl ⊢
  rw [h.limits]
  split at hl
  next hlong => rw [if_pos hlong, hl]
  next hlong =>
    rw [if_neg hlong]
    exact h.disk.barrier? hl

/-- Nothing keeps the location of a directory's entry later that did not keep it before. -/
theorem Later.barrier?_eq (h : Later w w') {es : List (Text × Tree)} {a : Access}
    (hup : w.disk.visit l.parent = .ok (.directory es a)) : w'.barrier? l = w.barrier? l := by
  rw [barrier?, barrier?, h.limits, h.disk.barrier?_eq hup]

/-- **A write leads to a later workspace, whatever it comes to.** -/
theorem Written.later {r : Except Error Bool × Workspace} (h : Written w path t r) : Later w r.2 := by
  cases h with
  | refused => exact .refl w
  | unreached => exact .refl w
  | barred => exact .refl w
  | cut at_ reached way long free met => exact ⟨rfl, rfl, Tree.extends_put_empty free⟩
  | wrote at_ wrote =>
    obtain ⟨-, clear, rfl, -⟩ := wrote
    exact ⟨rfl, rfl, Tree.extends_put_file clear _⟩

theorem later_write {r : Except Error Bool} (h : w.write path t = (r, w')) : Later w w' := by
  have hw := written w path t
  rw [h] at hw
  exact hw.later

/-! ### What a write leaves -/

/-- A write that fails leaves all files as they are. -/
theorem contents_of_error (h : w.write path t = (.error e, w')) {octets : ByteArray} :
    w'.disk.contents m = .ok octets ↔ w.disk.contents m = .ok octets := by
  have hw := written w path t
  rw [h] at hw
  cases hw with
  | refused => exact Iff.rfl
  | unreached => exact Iff.rfl
  | barred => exact Iff.rfl
  | cut at_ reached way long free met => exact Tree.contents_put_empty free

/-- A write that fails leaves the directories as they are as well, unless a name is too long. -/
theorem eq_or_cut_of_error (h : w.write path t = (.error e, w')) :
    w' = w ∨ ∃ q s r p, w.locate path = .ok (q ++ s :: r) ∧ Limits.exceeds w.limits.name s = true ∧
      w.disk.Free q ∧ w' = { w with disk := w.disk.put q .empty } ∧
        e = .path ⟨path, .unwritten ⟨.tooLong, p⟩⟩ := by
  have hw := written w path t
  rw [h] at hw
  cases hw with
  | refused => exact .inl rfl
  | unreached => exact .inl rfl
  | barred => exact .inl rfl
  | cut at_ reached way long free met => exact .inr ⟨_, _, _, _, way ▸ at_, long, free, rfl, rfl⟩

end Graft.Workspace
