import Graft.Proofs.Workspace.Writing

/-
The texts that a workspace holds, and what writing does to them.

* `Holds w l t` — the file at a location holds a text;
* `read_eq_ok_iff`, `read_eq_ok` — a text that is held is read as it was written;
* `read_unique` — paths with one location are read alike;
* `contents_write`, `holds_write` — **a write changes the file at its own location and no other**;
* `Writes w log w'` — a run of writes, of which some may fail;
* `Writes.holds_iff`, `Writes.contents_iff` — after a run every location holds the last text written to
  it, else what it held;
* `Writes.reached` — what was written can still be looked up;
* `Writes.kept_iff` — **a run leaves all its texts behind exactly when it never writes two different
  texts to one location**.

Design notes: a text is compared with the octets of a file through its encoding, which loses nothing.
-/
namespace Graft.Workspace

variable {w w₁ w' : Workspace} {path : Text} {l l' : Location} {t t' : Text}

/-- The file at a location holds a text. -/
def Holds (w : Workspace) (l : Location) (t : Text) : Prop :=
  w.disk.contents l = .ok (Utf8.encode t)

theorem encode_injective (h : Utf8.encode t = Utf8.encode t') : t = t' := by
  have hdecode := congrArg Utf8.decode h
  rw [Utf8.decode_encode, Utf8.decode_encode] at hdecode
  exact Except.ok.inj hdecode

theorem Holds.unique (h : w.Holds l t) (h' : w.Holds l t') : t = t' :=
  encode_injective (Except.ok.inj (h.symm.trans h'))

/-- What is read at a path is what the octets of the file at its location stand for. -/
theorem read_eq_ok_iff : w.read path = .ok t ↔ ∃ l octets, w.locate path = .ok l ∧
    w.barrier? l = none ∧ w.disk.contents l = .ok octets ∧ Utf8.decode octets = .ok t := by
  rw [read]
  cases w.locate path with
  | error e => simp [bind, Except.bind]
  | ok l =>
    cases hmet : w.barrier? l with
    | some o => simp [bind, Except.bind, hmet, fail]
    | none =>
      cases hc : w.disk.contents l with
      | error o => simp [bind, Except.bind, hmet, hc, fail]
      | ok octets => cases hd : Utf8.decode octets <;> simp [bind, Except.bind, hmet, hc, hd, fail]

/-- A text that is held is read as it was written. -/
theorem read_eq_ok (hl : w.locate path = .ok l) (hreached : w.barrier? l = none) (h : w.Holds l t) :
    w.read path = .ok t :=
  read_eq_ok_iff.mpr ⟨l, _, hl, hreached, h, Utf8.decode_encode t⟩

/-- Paths with one location are read alike. -/
theorem read_unique {path' : Text} (hsame : w.locate path = w.locate path')
    (h : w.read path = .ok t) (h' : w.read path' = .ok t') : t = t' := by
  obtain ⟨l, octets, hl, -, hc, hd⟩ := read_eq_ok_iff.mp h
  obtain ⟨l', octets', hl', -, hc', hd'⟩ := read_eq_ok_iff.mp h'
  obtain rfl := Except.ok.inj (hl.symm.trans (hsame.trans hl'))
  obtain rfl := Except.ok.inj (hc.symm.trans hc')
  exact Except.ok.inj (hd.symm.trans hd')

/-! ### One write -/

/-- The octets after a write are those of its text at its own location, and elsewhere those from
before. -/
theorem Wrote.contents_iff (h : Wrote w l t w') {o : ByteArray} : w'.disk.contents l' = .ok o ↔
    (l' = l ∧ o = Utf8.encode t) ∨ (l' ≠ l ∧ w.disk.contents l' = .ok o) := by
  rw [h.put]
  exact Tree.contents_put_iff (Tree.bars?_eq_none_iff.mp h.clear).1 _ _ _

theorem contents_write {new : Bool} (h : w.write path t = (.ok new, w')) (hl : w.locate path = .ok l)
    {o : ByteArray} : w'.disk.contents l' = .ok o ↔
      (l' = l ∧ o = Utf8.encode t) ∨ (l' ≠ l ∧ w.disk.contents l' = .ok o) := by
  obtain ⟨l₁, hl₁, hwrote, -⟩ := wrote_of_ok h
  obtain rfl := Except.ok.inj (hl₁.symm.trans hl)
  exact hwrote.contents_iff

/-- **A write changes the text at its own location and no other.** -/
theorem holds_write {new : Bool} (h : w.write path t = (.ok new, w')) (hl : w.locate path = .ok l) :
    w'.Holds l' t' ↔ (l' = l ∧ t' = t) ∨ (l' ≠ l ∧ w.Holds l' t') := by
  have hencode : Utf8.encode t' = Utf8.encode t ↔ t' = t := ⟨encode_injective, congrArg _⟩
  rw [Holds, contents_write h hl, hencode, Holds]

/-- A file that can be looked up can be looked up later. -/
theorem Later.reached (h : Later w w') {o : ByteArray} (hl : w.disk.contents l = .ok o) :
    w'.barrier? l = w.barrier? l := by
  obtain ⟨r, hv⟩ := Tree.contents_eq_ok.mp hl
  rw [barrier?, barrier?, h.limits, h.disk.barrier?_found hv]

/-! ### Runs of writes -/

/-- A run of writes, of which some may fail: the texts in the order in which they are written, with
their locations. -/
inductive Writes : Workspace → List (Location × Text) → Workspace → Prop where
  | done (w : Workspace) : Writes w [] w
  | step {w w₁ w' : Workspace} {path t : Text} {l : Location} {new : Bool}
      {log : List (Location × Text)} (here : w.write path t = (.ok new, w₁))
      (at_ : w.locate path = .ok l) (rest : Writes w₁ log w') : Writes w ((l, t) :: log) w'
  | missed {w w₁ w' : Workspace} {path t : Text} {e : Error} {log : List (Location × Text)}
      (here : w.write path t = (.error e, w₁)) (rest : Writes w₁ log w') : Writes w log w'

/-- The last text of a run at a location. -/
def latest (l : Location) : List (Location × Text) → Option Text
  | [] => none
  | (m, t) :: log => (latest l log).or (if m = l then some t else none)

theorem mem_of_latest {log : List (Location × Text)} (h : latest l log = some t) : (l, t) ∈ log := by
  induction log with
  | nil => cases h
  | cons e log ih =>
    obtain ⟨m, u⟩ := e
    rw [latest, Option.or_eq_some_iff] at h
    rcases h with h | ⟨-, h⟩
    · exact List.mem_cons_of_mem _ (ih h)
    · split at h
      next hm => rw [hm, Option.some.inj h]; exact List.mem_cons_self
      · cases h

theorem latest_isSome {log : List (Location × Text)} (h : (l, t) ∈ log) :
    ∃ t', latest l log = some t' := by
  induction log with
  | nil => cases h
  | cons e log ih =>
    obtain ⟨m, u⟩ := e
    rw [latest]
    rcases List.mem_cons.mp h with h | h
    · obtain ⟨rfl, rfl⟩ := Prod.mk.inj h
      rw [if_pos rfl]
      cases latest l log with
      | none => exact ⟨_, rfl⟩
      | some t' => exact ⟨t', rfl⟩
    · obtain ⟨t', ht'⟩ := ih h
      exact ⟨t', by rw [ht']; rfl⟩

theorem Writes.trans {log log' : List (Location × Text)} (h : Writes w log w₁)
    (h' : Writes w₁ log' w') : Writes w (log ++ log') w' := by
  induction h with
  | done w => exact h'
  | step here at_ _ ih => exact .step here at_ (ih h')
  | missed here _ ih => exact .missed here (ih h')

/-- A run of writes leads to a later workspace. -/
theorem Writes.later {log : List (Location × Text)} (h : Writes w log w') : Later w w' := by
  induction h with
  | done w => exact .refl w
  | step here _ _ ih => exact (later_write here).trans ih
  | missed here _ ih => exact (later_write here).trans ih

/-- After a run every location holds the last text written to it, else what it held. -/
theorem Writes.holds_iff {log : List (Location × Text)} (h : Writes w log w') :
    w'.Holds l t ↔ latest l log = some t ∨ (latest l log = none ∧ w.Holds l t) := by
  induction h with
  | done w => simp [latest]
  | @step _ _ _ _ u m _ log here at_ rest ih =>
    rw [ih, holds_write here at_, latest]
    cases latest l log with
    | some t' => simp
    | none =>
      by_cases hl : m = l
      · subst hl
        simp [eq_comm]
      · simp [hl, Ne.symm hl]
  | missed here _ ih => rw [ih, Holds, contents_of_error here, Holds]

/-- After a run every file has the octets of the last text written to it, else those it had. -/
theorem Writes.contents_iff {log : List (Location × Text)} (h : Writes w log w') {o : ByteArray} :
    w'.disk.contents l = .ok o ↔
      (∃ t, latest l log = some t ∧ o = Utf8.encode t) ∨
        (latest l log = none ∧ w.disk.contents l = .ok o) := by
  induction h with
  | done w => simp [latest]
  | @step _ _ _ _ u m _ log here at_ rest ih =>
    rw [ih, contents_write here at_, latest]
    cases latest l log with
    | some t' => simp
    | none =>
      by_cases hl : m = l
      · subst hl
        simp
      · simp [hl, Ne.symm hl]
  | missed here _ ih => rw [ih, contents_of_error here]

/-- What was written can still be looked up. -/
theorem Writes.reached {log : List (Location × Text)} (h : Writes w log w') (hl : (l, t) ∈ log) :
    w'.barrier? l = none := by
  induction h with
  | done w => cases hl
  | step here at_ rest ih =>
    rcases List.mem_cons.mp hl with hl | hl
    · obtain ⟨rfl, rfl⟩ := Prod.mk.inj hl
      obtain ⟨l₁, hl₁, hwrote, -⟩ := wrote_of_ok here
      obtain rfl := Except.ok.inj (hl₁.symm.trans at_)
      exact (rest.later.reached (hwrote.contents_iff.mpr (.inl ⟨rfl, rfl⟩))).trans hwrote.found
    · exact ih hl
  | missed _ _ ih => exact ih hl

/-- **A run leaves all its texts behind exactly when it never writes two different texts to one
location.** -/
theorem Writes.kept_iff {log : List (Location × Text)} (h : Writes w log w') :
    (∀ l t, (l, t) ∈ log → w'.Holds l t) ↔
      ∀ l t t', (l, t) ∈ log → (l, t') ∈ log → t = t' := by
  constructor
  · intro hall l t t' ht ht'
    exact (hall l t ht).unique (hall l t' ht')
  · intro hagree l t ht
    obtain ⟨t', hlatest⟩ := latest_isSome ht
    obtain rfl := hagree l t t' ht (mem_of_latest hlatest)
    exact h.holds_iff.mpr (Or.inl hlatest)

end Graft.Workspace
