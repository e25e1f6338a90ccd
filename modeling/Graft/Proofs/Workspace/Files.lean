import Graft.Proofs.Workspace.Store

/-
The files that a workspace holds.

* `held w l` — the octets of the file at a location, if there is one;
* `held_write`, `held_of_error`, `Writes.held_eq` — the files after a write, and after a run of writes;
* `Later.held_isSome` — a file that is there is there later;
* `write_of_file` — a file that is there is written, and is not new then, unless it is locked;
* `Later.read_congr`, `Later.exists?_congr` — a path is read alike where its file is the same;
* `Rewritten w path old text w'` — a file that was read, and then written with another text;
* `Rewritten.differs` — it is another file then;
* `Rewritten.earlier` — what it was before could be written back;
* `Alike w w'` — workspaces that are each the later one of the other, with the same files, which are
  read alike.

Design notes: what is not a file is left out of the comparison of files, since a write may make
directories.  Whether a path can be looked up is kept where the directory above it was there already.
-/
namespace Graft.Workspace

variable {w w' w₁ v : Workspace} {path t t' : Text} {l l' : Location} {octets : ByteArray}

/-- The octets of the file at a location, if there is one. -/
def held (w : Workspace) (l : Location) : Option ByteArray := (w.disk.contents l).toOption

theorem held_eq_some : w.held l = some octets ↔ w.disk.contents l = .ok octets := by
  rw [held]
  cases w.disk.contents l <;> simp [Except.toOption]

/-- A file is where octets are held. -/
theorem isFile_eq (w : Workspace) (l : Location) : w.disk.isFile l = (w.held l).isSome := by
  rw [held, Tree.isFile, Tree.contents]
  cases w.disk.visit l with
  | error o => rfl
  | ok u => cases u <;> rfl

theorem exists?_eq_true : w.exists? path = .ok true ↔
    ∃ l, w.locate path = .ok l ∧ w.barrier? l = none ∧ (w.held l).isSome = true := by
  rw [exists?]
  cases w.locate path with
  | error e => cases e <;> simp
  | ok l => cases hmet : w.barrier? l <;> simp [isFile_eq, hmet]

theorem read_eq_ok_held : w.read path = .ok t ↔ ∃ l octets, w.locate path = .ok l ∧
    w.barrier? l = none ∧ w.held l = some octets ∧ Utf8.decode octets = .ok t := by
  simp only [read_eq_ok_iff, held_eq_some]

/-- A text that can be read is in a file. -/
theorem exists?_of_read (h : w.read path = .ok t) : w.exists? path = .ok true := by
  obtain ⟨l, octets, hl, hreached, hheld, -⟩ := read_eq_ok_held.mp h
  exact exists?_eq_true.mpr ⟨l, hl, hreached, by rw [hheld]; rfl⟩

/-! ### Writes -/

/-- After a write its text is at its own location, and elsewhere are the files from before. -/
theorem held_write {new : Bool} (h : w.write path t = (.ok new, w')) (hl : w.locate path = .ok l) :
    w'.held l' = if l' = l then some (Utf8.encode t) else w.held l' := by
  ext octets
  rw [held_eq_some, contents_write h hl]
  by_cases hsame : l' = l
  · simp [hsame, eq_comm]
  · simp [hsame, held_eq_some]

theorem held_of_error {e : Error} (h : w.write path t = (.error e, w')) (l : Location) :
    w'.held l = w.held l := by
  ext octets
  rw [held_eq_some, contents_of_error h, held_eq_some]

/-- After a run of writes the last text is at each location, or else the file from before. -/
theorem Writes.held_eq {log : List (Location × Text)} (h : Writes w log w') (l : Location) :
    w'.held l = ((latest l log).map Utf8.encode).or (w.held l) := by
  ext octets
  rw [held_eq_some, h.contents_iff]
  cases latest l log with
  | none => simp [held_eq_some]
  | some t => simp [eq_comm]

theorem Writes.locate_eq {log : List (Location × Text)} (h : Writes w log w') :
    w'.locate path = w.locate path :=
  h.later.locate_eq path

/-- A file that is there is there later. -/
theorem Later.held_isSome (h : Later w w') (hl : (w.held l).isSome = true) :
    (w'.held l).isSome = true := by
  obtain ⟨octets, hoctets⟩ := Option.isSome_iff_exists.mp hl
  obtain ⟨r, hv⟩ := Tree.contents_eq_ok.mp (held_eq_some.mp hoctets)
  obtain ⟨octets', hv'⟩ := h.disk.file hv
  rw [held_eq_some.mpr (Tree.contents_eq_ok.mpr ⟨r, hv'⟩)]
  rfl

/-- A file that is there is written, and is not new then, unless it is locked. -/
theorem write_of_file (hl : w.locate path = .ok l) (hreached : w.barrier? l = none) (hne : l ≠ [])
    {r : Bool} (hv : w.disk.visit l = .ok (.file octets r)) (t : Text) :
    if r then w.write path t = (fail path (.unwritten ⟨.forbidden, l.text⟩), w)
    else ∃ w', w.write path t = (.ok false, w') := by
  have hbars : w.disk.barsFile l = none := Tree.barsFile_of_contents hne (Tree.contents_eq_ok.mpr ⟨r, hv⟩)
  have hfree : w.disk.lockedAt? l = none := Tree.lockedAt?_of_not_missing (by simp [hv])
  have hw := written w path t
  generalize w.write path t = result at hw ⊢
  cases hw with
  | refused refused =>
    rw [hl] at refused
    cases refused
  | unreached at_ met =>
    obtain rfl := Except.ok.inj (hl.symm.trans at_)
    rw [hreached] at met
    cases met
  | barred at_ reached bars =>
    obtain rfl := Except.ok.inj (hl.symm.trans at_)
    cases r with
    | true =>
      rw [Tree.bars?, hbars, hv] at bars
      cases bars
      rfl
    | false =>
      rw [Tree.bars?_eq_none_iff.mpr ⟨hbars, by simp [hv], hfree⟩] at bars
      cases bars
  | cut at_ reached way long free met =>
    obtain rfl := Except.ok.inj (hl.symm.trans at_)
    rw [way, Tree.visit_append_of_error free.1] at hv
    cases hv
  | wrote at_ wrote =>
    obtain rfl := Except.ok.inj (hl.symm.trans at_)
    have hthere : w.disk.exists? l = true := by rw [Tree.exists?, hv]; rfl
    cases r with
    | true => exact absurd hv ((Tree.bars?_eq_none_iff.mp wrote.clear).2.1 octets)
    | false => exact ⟨_, by rw [hthere]; rfl⟩

/-- A path is read alike where its file is the same. -/
theorem Later.read_congr (h : Later w w') (hheld : ∀ l, w.locate path = .ok l → w'.held l = w.held l) :
    w'.read path = .ok t ↔ w.read path = .ok t := by
  rw [read_eq_ok_held, read_eq_ok_held, h.locate_eq]
  refine exists_congr fun l => exists_congr fun octets => and_congr_right fun hl => ?_
  rw [hheld l hl]
  refine and_congr_left fun ⟨hoctets, _⟩ => ?_
  rw [h.reached (held_eq_some.mp hoctets)]

/-- A file is as much there as before where one was there before, if it can be looked up as before. -/
theorem Later.exists?_congr (h : Later w w') (hheld : ∀ l, w.locate path = .ok l →
      w'.barrier? l = w.barrier? l ∧ (w'.held l).isSome = (w.held l).isSome) :
    w'.exists? path = w.exists? path := by
  rw [exists?, exists?, h.locate_eq]
  cases hl : w.locate path with
  | error e => cases e <;> rfl
  | ok l =>
    obtain ⟨hbarrier, hsome⟩ := hheld l hl
    dsimp only
    rw [isFile_eq, isFile_eq, hsome, hbarrier]

/-- A file that is there can be looked up later, and is there. -/
theorem Later.exists? (h : Later w w') (hthere : w.exists? path = .ok true) :
    w'.exists? path = .ok true := by
  obtain ⟨l, hl, hreached, hsome⟩ := exists?_eq_true.mp hthere
  obtain ⟨octets, hheld⟩ := Option.isSome_iff_exists.mp hsome
  refine exists?_eq_true.mpr ⟨l, (h.locate_eq path).trans hl, ?_, h.held_isSome hsome⟩
  rw [h.reached (held_eq_some.mp hheld), hreached]

/-- Where each of two workspaces is the later one, a location is looked up alike in both. -/
theorem Later.barrier?_eq_of_later (h : Later w w') (h' : Later w' w) (l : Location) :
    w'.barrier? l = w.barrier? l := by
  cases hl : w.barrier? l with
  | some o => exact h.barrier?_eq_some hl
  | none =>
    cases hl' : w'.barrier? l with
    | none => rfl
    | some o =>
      rw [h'.barrier?_eq_some hl'] at hl
      cases hl

theorem Later.exists?_eq_of_later (h : Later w w') (h' : Later w' w) (path : Text) :
    w'.exists? path = w.exists? path := by
  refine h.exists?_congr fun l _ => ⟨h.barrier?_eq_of_later h' l, ?_⟩
  rw [Bool.eq_iff_iff]
  exact ⟨h'.held_isSome, h.held_isSome⟩

/-- What a file was before can be written back. -/
theorem Wrote.earlier (h : Wrote w l t w') {r : Bool} (hv : w.disk.visit l = .ok (.file octets r)) :
    Later w' w := by
  obtain ⟨-, hclear, rfl, -⟩ := h
  have hopen : r = false := by
    cases r with
    | false => rfl
    | true => exact absurd hv ((Tree.bars?_eq_none_iff.mp hclear).2.1 octets)
  subst hopen
  exact ⟨rfl, rfl, Tree.extends_put_back hclear hv⟩

/-! ### Files written anew -/

/-- A file that was read as `old` and is written as `text`. -/
structure Rewritten (w : Workspace) (path old text : Text) (w' : Workspace) : Prop where
  read : w.read path = .ok old
  write : ∃ new, w.write path text = (.ok new, w')

theorem Rewritten.writes {old : Text} (h : Rewritten w path old t w') :
    ∃ l, w.locate path = .ok l ∧ (w.held l).isSome = true ∧ Writes w [(l, t)] w' := by
  obtain ⟨new, hwrite⟩ := h.write
  obtain ⟨l, octets, hl, -, hheld, -⟩ := read_eq_ok_held.mp h.read
  exact ⟨l, hl, by rw [hheld]; rfl, .step hwrite hl (.done w')⟩

theorem Rewritten.later {old : Text} (h : Rewritten w path old t w') : Later w w' := by
  obtain ⟨new, hwrite⟩ := h.write
  exact later_write hwrite

/-- What a file was before could be written back. -/
theorem Rewritten.earlier {old : Text} (h : Rewritten w path old t w') : Later w' w := by
  obtain ⟨new, hwrite⟩ := h.write
  obtain ⟨l, hl, hwrote, -⟩ := wrote_of_ok hwrite
  obtain ⟨l', octets, hl', -, hheld, -⟩ := read_eq_ok_held.mp h.read
  obtain rfl := Except.ok.inj (hl.symm.trans hl')
  obtain ⟨r, hv⟩ := Tree.contents_eq_ok.mp (held_eq_some.mp hheld)
  exact hwrote.earlier hv

/-- A file written anew is read with its new text. -/
theorem Rewritten.read_self {old : Text} {p : Text} (h : Rewritten w path old t w')
    (hp : w.locate p = w.locate path) : w'.read p = .ok t := by
  obtain ⟨new, hwrite⟩ := h.write
  obtain ⟨l, hl, -, hwrites⟩ := h.writes
  refine read_eq_ok_held.mpr ⟨l, Utf8.encode t, ?_, ?_, ?_, Utf8.decode_encode t⟩
  · rw [hwrites.locate_eq, hp, hl]
  · exact hwrites.reached (List.mem_singleton.mpr rfl)
  · rw [held_write hwrite hl, if_pos rfl]

/-- A file written with another text is another file. -/
theorem Rewritten.differs {old : Text} (h : Rewritten w path old t w') (hne : t ≠ old)
    (hl : w.locate path = .ok l) : w'.held l ≠ w.held l := by
  obtain ⟨new, hwrite⟩ := h.write
  obtain ⟨l₁, octets, hl₁, -, hheld, hdecode⟩ := read_eq_ok_held.mp h.read
  obtain rfl := Except.ok.inj (hl₁.symm.trans hl)
  rw [held_write hwrite hl, if_pos rfl, hheld]
  intro heq
  rw [← Option.some.inj heq, Utf8.decode_encode] at hdecode
  exact hne (Except.ok.inj hdecode)

/-! ### The same files -/

/-- Workspaces that are each the later one of the other, with the same files. -/
structure Alike (w w' : Workspace) : Prop where
  later : Later w w'
  earlier : Later w' w
  held : ∀ l, w'.held l = w.held l

theorem Alike.locate_eq (h : Alike w w') : w'.locate = w.locate := funext h.later.locate_eq

theorem Alike.exists?_eq (h : Alike w w') (path : Text) : w'.exists? path = w.exists? path :=
  h.later.exists?_eq_of_later h.earlier path

theorem Alike.read_eq_ok (h : Alike w w') : w'.read path = .ok t ↔ w.read path = .ok t :=
  h.later.read_congr fun l _ => h.held l

end Graft.Workspace
