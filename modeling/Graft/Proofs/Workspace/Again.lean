import Graft.Proofs.Workspace.Files

/-
A file written again, in a later workspace.

* `PathError.Lengthy e` — a failure to write for a name that is too long;
* `Later.write_ok` — a write that succeeded succeeds again, and finds its file;
* `Later.write_error` — **a write that failed fails again, for the same reason if that was not the length
  of a name**;
* `Later.write_lengthy` — **one that failed for a name that is too long is a fault from then on**.

Design notes: a name that is too long shows only once there are directories down to it.  The first
write makes them, and fails; every later one cannot even look up its location.
-/
namespace Graft.Workspace

variable {w w' v : Workspace} {path t : Text} {l : Location} {e : PathError}

/-- A failure to write for a name that is too long. -/
def PathError.Lengthy (e : PathError) : Prop := ∃ p, e.problem = .unwritten ⟨.tooLong, p⟩

instance (e : PathError) : Decidable e.Lengthy :=
  match h : e.problem with
  | .unwritten ⟨.tooLong, p⟩ => isTrue ⟨p, h⟩
  | .unwritten ⟨.missing, _⟩ | .unwritten ⟨.occupied, _⟩ | .unwritten ⟨.notDirectory, _⟩
  | .unwritten ⟨.isDirectory, _⟩ | .unwritten ⟨.forbidden, _⟩
  | .notRelative | .outside | .unread _ | .undecodable _ =>
    isFalse fun ⟨p, hp⟩ => by rw [h] at hp; cases hp

/-- A location that a write was barred from is barred later, and as far as it goes looked up alike. -/
theorem Later.write_barred (h : Later w v) {o : Obstacle} {p : Location} (hl : w.locate path = .ok l)
    (hreached : w.barrier? l = none) (hbars : w.disk.bars? l = some (o, p)) :
    v.write path t = (fail path (.unwritten ⟨o, p.text⟩), v) := by
  have hbars' := h.disk.bars? hbars
  have hreached' : v.barrier? l = none := by
    rw [barrier?, h.limits, h.disk.barrier?_barred hbars, ← barrier?]
    exact hreached
  have hl' := (h.locate_eq path).trans hl
  have hw := written v path t
  generalize v.write path t = r at hw ⊢
  cases hw with
  | refused refused =>
    rw [hl'] at refused
    cases refused
  | unreached at_ met =>
    obtain rfl := Except.ok.inj (hl'.symm.trans at_)
    rw [hreached'] at met
    cases met
  | barred at_ reached bars =>
    obtain rfl := Except.ok.inj (hl'.symm.trans at_)
    obtain ⟨rfl, rfl⟩ := Prod.mk.inj (Option.some.inj (hbars'.symm.trans bars))
    rfl
  | cut at_ reached way long free met =>
    obtain rfl := Except.ok.inj (hl'.symm.trans at_)
    rw [way, (free.append).bars?] at hbars'
    cases hbars'
  | wrote at_ wrote =>
    obtain rfl := Except.ok.inj (hl'.symm.trans at_)
    rw [wrote.clear] at hbars'
    cases hbars'

theorem write_unreached {o : Obstacle} (hl : w.locate path = .ok l) (hmet : w.barrier? l = some o)
    (t : Text) : w.write path t = (.error (.fault (.barred ⟨o, l.text⟩)), w) := by
  rw [write, hl]
  dsimp only
  rw [hmet]

/-- **A write that failed fails again, for the same reason if that was not the length of a name.** -/
theorem Later.write_error (hw : w.write path t = (.error (.path e), w')) (he : ¬ e.Lengthy)
    (h : Later w' v) : v.write path t = (.error (.path e), v) ∧ w' = w := by
  have hwritten := written w path t
  rw [hw] at hwritten
  cases hwritten with
  | refused refused =>
    refine ⟨?_, rfl⟩
    rw [write, h.locate_eq, refused]
  | barred at_ reached bars => exact ⟨h.write_barred at_ reached bars, rfl⟩
  | cut at_ reached way long free met => exact absurd ⟨_, rfl⟩ he

/-- **One that failed for a name that is too long is a fault from then on.** -/
theorem Later.write_lengthy (hw : w.write path t = (.error (.path e), w')) (he : e.Lengthy)
    (h : Later w' v) : ∃ l, w.locate path = .ok l ∧
      v.write path t = (.error (.fault (.barred ⟨.tooLong, l.text⟩)), v) := by
  have hlater := (later_write hw).trans h
  have hwritten := written w path t
  rw [hw] at hwritten
  obtain ⟨p, hp⟩ := he
  cases hwritten with
  | refused refused =>
    rw [locate, locateFrom] at refused
    dsimp only at refused
    split at refused
    · cases refused
      cases hp
    · split at refused
      · cases refused
      · split at refused
        · cases refused
        · cases refused
          cases hp
  | barred at_ reached bars =>
    cases hp
    exact absurd bars Tree.bars?_ne_tooLong
  | cut at_ reached way long free met =>
    exact ⟨_, at_, write_unreached ((hlater.locate_eq path).trans at_) (h.barrier?_eq_some met) t⟩

/-- One that failed and made no directory fails again for the same reason. -/
theorem Later.write_stuck (hw : w.write path t = (.error (.path e), w)) (h : Later w v) :
    v.write path t = (.error (.path e), v) := by
  refine (h.write_error hw fun he => ?_).1
  obtain ⟨l, -, hagain⟩ := (Later.refl w).write_lengthy hw he
  rw [hw] at hagain
  cases hagain

/-- **A write that succeeded succeeds again, and finds its file.** -/
theorem Later.write_ok {new : Bool} (hw : w.write path t = (.ok new, w')) (h : Later w' v) :
    ∃ v', v.write path t = (.ok false, v') ∧ Later v' v := by
  obtain ⟨l, hl, hwrote, -⟩ := wrote_of_ok hw
  have hne : l ≠ [] := by
    rintro rfl
    exact Tree.bars?_top _ hwrote.clear
  have hfile : w'.disk.visit l = .ok (.file (Utf8.encode t)) := by
    rw [hwrote.put]
    exact Tree.visit_put_self _ _ _
  obtain ⟨octets, hv⟩ := h.disk.file hfile
  have hlater := (later_write hw).trans h
  have hreached : v.barrier? l = none :=
    (h.reached (Tree.contents_eq_ok.mpr ⟨false, hfile⟩)).trans hwrote.found
  have hagain := write_of_file ((hlater.locate_eq path).trans hl) hreached hne hv t
  rw [if_neg Bool.false_ne_true] at hagain
  obtain ⟨v', hwrite⟩ := hagain
  obtain ⟨l', hl', hwrote', -⟩ := wrote_of_ok hwrite
  obtain rfl := Except.ok.inj (hl'.symm.trans ((hlater.locate_eq path).trans hl))
  exact ⟨v', hwrite, hwrote'.earlier hv⟩

end Graft.Workspace
