import Graft.Disk.Tree

/-
The files of a tree after one is put in.

* `barsDirectory l`, `barsFile l` — what stands in the way of a directory, or of a file, at a place;
* `barsFile_eq_none_iff` — when nothing bars the writing of a file;
* `barsFile_entry`, `barsFile_deeper` — the same, entry by entry on the way down;
* `barsFile_of_contents` — nothing bars the writing of a file that is there;
* `contents_put_iff` — **where nothing bars it, a file put at a place is there, and all other files
  are those from before**.

Design notes: only files are compared, since putting one in may make directories, which changes what is
missing to what is a directory.  What may be done with a file or a directory plays no part here: a tree
into which a file is put is looked at, whether or not somebody may put it there.
-/
namespace Graft.Tree

variable {es : List (Text × Tree)} {a : Access} {s : Text} {r : Bool}

/-! ### What bars the way -/

/-- What bars the making of directories down to a place. -/
def barsDirectory (t : Tree) (l : Location) : Option Obstacle :=
  match t.visit l with
  | .ok (.file ..) => some .occupied
  | .error .notDirectory => some .notDirectory
  | _ => none

/-- What bars the writing of a file at a place, and where. -/
def barsFile (t : Tree) (l : Location) : Option (Obstacle × Location) :=
  match t.barsDirectory l.parent, t.visit l with
  | some o, _ => some (o, l.parent)
  | none, .ok (.directory ..) => some (.isDirectory, l)
  | none, _ => none

theorem visit_entry (es : List (Text × Tree)) (a : Access) (s : Text) (ss : Location) :
    (directory es a).visit (s :: ss) =
      match Table.get? s es with
      | none => .error .missing
      | some t => t.visit ss := rfl

theorem contents_entry (es : List (Text × Tree)) (a : Access) (s : Text) (ss : Location) :
    (directory es a).contents (s :: ss) =
      match Table.get? s es with
      | none => .error .missing
      | some t => t.contents ss := by
  rw [contents, visit_entry]
  cases Table.get? s es <;> rfl

/-- Nothing bars the writing of a file where directories can be made above it and there is none. -/
theorem barsFile_eq_none_iff {t : Tree} {l : Location} :
    t.barsFile l = none ↔
      t.barsDirectory l.parent = none ∧ ∀ es a, t.visit l ≠ .ok (directory es a) := by
  unfold barsFile
  cases hdir : t.barsDirectory l.parent with
  | some o => simp
  | none =>
    cases hvisit : t.visit l with
    | error o => simp
    | ok u => cases u <;> simp

theorem barsFile_top (t : Tree) : t.barsFile [] ≠ none := by
  intro h
  obtain ⟨hdir, hno⟩ := barsFile_eq_none_iff.mp h
  cases t with
  | file octets r => cases hdir
  | directory es a => exact hno es a rfl

/-- A file bars everything below it. -/
theorem barsFile_file (octets : ByteArray) (r : Bool) (l : Location) :
    (file octets r).barsFile l ≠ none := by
  intro h
  obtain ⟨hdir, -⟩ := barsFile_eq_none_iff.mp h
  unfold barsDirectory at hdir
  cases hl : l.parent with
  | nil =>
    rw [hl] at hdir
    cases hdir
  | cons s ss =>
    rw [hl] at hdir
    cases hdir

/-- Nothing bars the making of directories down to an entry when nothing bars it below. -/
theorem barsDirectory_entry {ss : Location} :
    (directory es a).barsDirectory (s :: ss) = none ↔
      ∀ t, Table.get? s es = some t → t.barsDirectory ss = none := by
  rw [barsDirectory, visit_entry]
  cases Table.get? s es with
  | none => simp
  | some t => simp [barsDirectory]

theorem barsFile_entry : (directory es a).barsFile [s] = none ↔
    ∀ es' a', Table.get? s es ≠ some (directory es' a') := by
  rw [barsFile_eq_none_iff, visit_entry]
  have htop : (directory es a).barsDirectory (Location.parent [s]) = none := rfl
  cases Table.get? s es with
  | none => simp [htop]
  | some t => cases t <;> simp [htop, visit]

theorem barsFile_deeper {s' : Text} {ss : Location} :
    (directory es a).barsFile (s :: s' :: ss) = none ↔
      ∀ t, Table.get? s es = some t → t.barsFile (s' :: ss) = none := by
  have hparent : Location.parent (s :: s' :: ss) = s :: Location.parent (s' :: ss) := rfl
  rw [barsFile_eq_none_iff, hparent, barsDirectory_entry, visit_entry]
  cases hentry : Table.get? s es with
  | none => simp
  | some t => simp [barsFile_eq_none_iff]

theorem barsFile_empty (s : Text) (ss : Location) : empty.barsFile (s :: ss) = none := by
  cases ss with
  | nil => exact barsFile_entry.mpr fun es' a' h => by cases h
  | cons s' ss => exact barsFile_deeper.mpr fun t h => by cases h

/-- Nothing bars the writing of a file that is there, in a directory. -/
theorem barsFile_of_contents {t : Tree} {l : Location} {octets : ByteArray} (hl : l ≠ [])
    (h : t.contents l = .ok octets) : t.barsFile l = none := by
  induction l generalizing t with
  | nil => exact absurd rfl hl
  | cons s ss ih =>
    cases t with
    | file b r => cases h
    | directory es a =>
      rw [contents_entry] at h
      cases hentry : Table.get? s es with
      | none =>
        rw [hentry] at h
        cases h
      | some u =>
        rw [hentry] at h
        cases ss with
        | nil =>
          refine barsFile_entry.mpr fun es' a' hes => ?_
          rw [hentry] at hes
          rw [Option.some.inj hes] at h
          cases h
        | cons s' ss' =>
          refine barsFile_deeper.mpr fun u' hu => ?_
          obtain rfl := Option.some.inj (hentry.symm.trans hu)
          exact ih (List.cons_ne_nil _ _) h

/-! ### Putting a file in -/

theorem contents_put_entry (es : List (Text × Tree)) (a : Access) (s : Text) (ss : Location) (x : Tree)
    (l' : Location) : ((directory es a).put (s :: ss) x).contents l' =
      match l' with
      | [] => .error .isDirectory
      | s' :: ss' =>
        if s' = s then (((Table.get? s es).getD empty).put ss x).contents ss'
        else (directory es a).contents (s' :: ss') := by
  rw [put]
  cases l' with
  | nil => rfl
  | cons s' ss' =>
    dsimp only [entries]
    by_cases hs : s' = s
    · subst hs
      rw [if_pos rfl, contents_entry, Table.get?_set_self]
    · rw [if_neg hs, contents_entry, contents_entry, Table.get?_set_of_ne hs]

theorem contents_file (octets : ByteArray) (r : Bool) (l : Location) (o : ByteArray) :
    (file octets r).contents l = .ok o ↔ l = [] ∧ o = octets := by
  cases l with
  | nil =>
    refine ⟨fun h => ⟨rfl, (Except.ok.inj h).symm⟩, ?_⟩
    rintro ⟨-, rfl⟩
    rfl
  | cons s ss =>
    refine ⟨fun h => (by cases h), ?_⟩
    rintro ⟨hl, -⟩
    cases hl

/-- Below an entry stand the files that stand below what it holds, an empty directory where there is
no such entry. -/
theorem contents_below_entry {l : Location} {o : ByteArray} :
    ((Table.get? s es).getD empty).contents l = .ok o ↔
      (directory es a).contents (s :: l) = .ok o := by
  rw [contents_entry]
  cases Table.get? s es with
  | some t => rfl
  | none =>
    refine ⟨fun h => ?_, fun h => by cases h⟩
    cases l <;> cases h

/-- Below an entry that is no directory stands no file. -/
theorem contents_of_no_directory (h : ∀ es' a', Table.get? s es ≠ some (directory es' a'))
    {l : Location} (hl : l ≠ []) (o : ByteArray) : (directory es a).contents (s :: l) ≠ .ok o := by
  obtain ⟨s', l', rfl⟩ := List.exists_cons_of_ne_nil hl
  intro hc
  rw [contents_entry] at hc
  cases hentry : Table.get? s es with
  | none =>
    rw [hentry] at hc
    cases hc
  | some t =>
    rw [hentry] at hc
    cases t with
    | file octets r => cases hc
    | directory es' a' => exact h es' a' hentry

/-- **Where nothing bars it, a file put at a place is there, and all other files are those from
before.** -/
theorem contents_put_iff {t : Tree} {l : Location} (h : t.barsFile l = none) (octets : ByteArray)
    (l' : Location) (o : ByteArray) : (t.put l (file octets r)).contents l' = .ok o ↔
      (l' = l ∧ o = octets) ∨ (l' ≠ l ∧ t.contents l' = .ok o) := by
  induction l generalizing t l' with
  | nil => exact absurd h (barsFile_top t)
  | cons s ss ih =>
    cases t with
    | file b r' => exact absurd h (barsFile_file b r' _)
    | directory es a =>
      rw [contents_put_entry]
      cases l' with
      | nil =>
        refine ⟨fun hc => (by cases hc), ?_⟩
        rintro (⟨hl, -⟩ | ⟨-, hc⟩)
        · cases hl
        · cases hc
      | cons s' ss' =>
        dsimp only
        by_cases hs : s' = s
        · subst hs
          rw [if_pos rfl, List.cons_eq_cons, Ne, List.cons_eq_cons]
          simp only [true_and]
          cases ss with
          | nil =>
            -- the file takes the place of the entry, and no file stood below that
            rw [put, contents_file]
            refine ⟨Or.inl, ?_⟩
            rintro (hc | ⟨hne, hc⟩)
            · exact hc
            · exact absurd hc (contents_of_no_directory (barsFile_entry.mp h) hne o)
          | cons s₂ ss₂ =>
            have hbelow : ((Table.get? s' es).getD empty).barsFile (s₂ :: ss₂) = none := by
              cases hentry : Table.get? s' es with
              | none => exact barsFile_empty s₂ ss₂
              | some t => exact barsFile_deeper.mp h t hentry
            rw [ih hbelow, contents_below_entry]
        · rw [if_neg hs]
          have hne : s' :: ss' ≠ s :: ss := fun he => hs (List.cons.inj he).1
          exact ⟨fun hc => Or.inr ⟨hne, hc⟩, fun hc => hc.elim (fun hc => absurd hc.1 hne) And.right⟩

end Graft.Tree
