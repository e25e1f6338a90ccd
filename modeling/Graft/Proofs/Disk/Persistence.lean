import Graft.Proofs.Disk.Files
import Mathlib.Data.List.Basic

/-
What the writing of files leaves in place.

* `visit_append`, `visit_append_of_error` — what is on the way to a place is met first;
* `Extends t t'` — directories stay directories, files stay files, and what may be done with them stays;
* `lockedAt? l` — the entry on the way to a missing place that no directory takes;
* `bars? l` — **whatever bars the writing of a file**, names that are too long apart;
* `extends_put_file`, `extends_put_empty` — a tree is extended by a file where nothing bars it, and by a
  directory where one can be made;
* `Extends.bars?` — **what bars the writing of a file still bars it later**;
* `visit_notDirectory_iff` — a place is out of reach exactly when there is a file above it.

Design notes: one tree extends another when it can be the later one.  This is said of the places of both
trees, so that it composes along any sequence of steps; for one step it is proved entry by entry on the
way down (`extends_set`).
-/
namespace Graft.Tree

variable {t t' u v : Tree} {l m : Location} {octets : ByteArray} {o : Obstacle}
  {es : List (Text × Tree)} {a : Access} {s : Text} {ss : Location}

/-! ### Further down -/

theorem visit_append (h : t.visit l = .ok u) : t.visit (l ++ m) = u.visit m := by
  induction l generalizing t with
  | nil =>
    obtain rfl := Except.ok.inj h
    rfl
  | cons s ss ih =>
    cases t with
    | file octets r => cases h
    | directory es a =>
      rw [visit_entry] at h
      rw [List.cons_append, visit_entry]
      cases hs : Table.get? s es with
      | none =>
        rw [hs] at h
        cases h
      | some t' =>
        rw [hs] at h
        exact ih h

theorem visit_append_of_error (h : t.visit l = .error o) : t.visit (l ++ m) = .error o := by
  induction l generalizing t with
  | nil => cases h
  | cons s ss ih =>
    cases t with
    | file octets r => exact h
    | directory es a =>
      rw [visit_entry] at h
      rw [List.cons_append, visit_entry]
      cases hs : Table.get? s es with
      | none =>
        rw [hs] at h
        exact h
      | some t' =>
        rw [hs] at h
        exact ih h

/-- Nothing but a missing entry or a file on the way keeps a place from being visited. -/
theorem visit_error (h : t.visit l = .error o) : o = .missing ∨ o = .notDirectory := by
  induction l generalizing t with
  | nil => cases h
  | cons s ss ih =>
    cases t with
    | file octets r => exact Or.inr (Except.error.inj h).symm
    | directory es a =>
      rw [visit_entry] at h
      cases hs : Table.get? s es with
      | none =>
        rw [hs] at h
        exact Or.inl (Except.error.inj h).symm
      | some t' =>
        rw [hs] at h
        exact ih h

theorem contents_eq_ok {o : ByteArray} :
    t.contents l = .ok o ↔ ∃ r, t.visit l = .ok (file o r) := by
  rw [contents]
  cases hv : t.visit l with
  | error e => simp
  | ok u => cases u <;> simp

/-- A place is out of reach exactly when there is a file above it. -/
theorem visit_notDirectory_iff : t.visit l = .error .notDirectory ↔
    ∃ p s q o r, l = p ++ s :: q ∧ t.visit p = .ok (file o r) := by
  constructor
  · intro h
    induction l generalizing t with
    | nil => cases h
    | cons s ss ih =>
      cases t with
      | file b r => exact ⟨[], s, ss, b, r, rfl, rfl⟩
      | directory es a =>
        rw [visit_entry] at h
        cases hentry : Table.get? s es with
        | none =>
          rw [hentry] at h
          cases h
        | some u =>
          rw [hentry] at h
          obtain ⟨p, s', q, o, r, rfl, hp⟩ := ih h
          exact ⟨s :: p, s', q, o, r, rfl, by rw [visit_entry, hentry]; exact hp⟩
  · rintro ⟨p, s, q, o, r, rfl, hp⟩
    rw [visit_append hp]
    rfl

/-- A directory lies in a directory. -/
theorem visit_parent (h : t.visit l = .ok (directory es a)) :
    ∃ es' a', t.visit l.parent = .ok (directory es' a') := by
  obtain rfl | ⟨p, s, rfl⟩ := List.eq_nil_or_concat' l
  · exact ⟨es, a, h⟩
  · rw [Location.parent, List.dropLast_concat]
    cases hp : t.visit p with
    | error e =>
      rw [visit_append_of_error hp] at h
      cases h
    | ok u =>
      rw [visit_append hp] at h
      cases u with
      | directory es' a' => exact ⟨es', a', rfl⟩
      | file b r => cases h

/-! ### Extension -/

/-- What a tree owes to what it was before. -/
structure Extends (t t' : Tree) : Prop where
  directory {l : Location} {es : List (Text × Tree)} {a : Access}
    (h : t.visit l = .ok (.directory es a)) : ∃ es', t'.visit l = .ok (.directory es' a)
  file {l : Location} {octets : ByteArray} {r : Bool} (h : t.visit l = .ok (.file octets r)) :
    ∃ octets', t'.visit l = .ok (.file octets' r)
  -- A directory that takes no entries has none that are new.
  locked {l : Location} {es : List (Text × Tree)} {a : Access} {s : Text}
    (h : t.visit l = .ok (.directory es a)) (locked : a.locked = true)
    (missing : t.visit (l ++ [s]) = .error .missing) : t'.visit (l ++ [s]) = .error .missing

theorem Extends.refl (t : Tree) : Extends t t where
  directory h := ⟨_, h⟩
  file h := ⟨_, h⟩
  locked _ _ missing := missing

theorem Extends.trans (h : Extends t u) (h' : Extends u v) : Extends t v where
  directory hl := by
    obtain ⟨_, hu⟩ := h.directory hl
    exact h'.directory hu
  file hl := by
    obtain ⟨_, hu⟩ := h.file hl
    exact h'.file hu
  locked hl hlocked hmissing := by
    obtain ⟨_, hu⟩ := h.directory hl
    exact h'.locked hu hlocked (h.locked hl hlocked hmissing)

theorem extends_file (b b' : ByteArray) (r : Bool) : Extends (file b r) (file b' r) where
  directory {l} _ _ h := by cases l <;> cases h
  file {l} _ _ h := by
    cases l with
    | nil =>
      cases h
      exact ⟨b', rfl⟩
    | cons s ss => cases h
  locked {l} _ _ _ h := by cases l <;> cases h

/-- What is found below an entry. -/
theorem visit_entry_eq_ok : (directory es a).visit (s :: ss) = .ok u ↔
    ∃ x, Table.get? s es = some x ∧ x.visit ss = .ok u := by
  rw [visit_entry]
  cases Table.get? s es <;> simp

theorem visit_set_self : (directory (Table.set s v es) a).visit (s :: ss) = v.visit ss := by
  rw [visit_entry, Table.get?_set_self]

theorem visit_set_of_ne {s' : Text} (hs : s' ≠ s) :
    (directory (Table.set s v es) a).visit (s' :: ss) = (directory es a).visit (s' :: ss) := by
  rw [visit_entry, visit_entry, Table.get?_set_of_ne hs]

/-- A directory is extended by an entry in the place of one that it extends, or by a new one if it takes
entries. -/
theorem extends_set (hsome : ∀ u, Table.get? s es = some u → Extends u v)
    (hnone : Table.get? s es = none → a.locked = false) :
    Extends (directory es a) (directory (Table.set s v es) a) where
  directory {l} es' a' h := by
    cases l with
    | nil =>
      cases h
      exact ⟨_, rfl⟩
    | cons s' ss =>
      by_cases hs : s' = s
      · subst hs
        obtain ⟨u, hentry, hu⟩ := visit_entry_eq_ok.mp h
        rw [visit_set_self]
        exact (hsome u hentry).directory hu
      · rw [visit_set_of_ne hs]
        exact ⟨_, h⟩
  file {l} b r h := by
    cases l with
    | nil => cases h
    | cons s' ss =>
      by_cases hs : s' = s
      · subst hs
        obtain ⟨u, hentry, hu⟩ := visit_entry_eq_ok.mp h
        rw [visit_set_self]
        exact (hsome u hentry).file hu
      · rw [visit_set_of_ne hs]
        exact ⟨_, h⟩
  locked {l} es' a' s₂ h hlocked hmissing := by
    cases l with
    | nil =>
      cases h
      rw [List.nil_append] at hmissing ⊢
      by_cases hs : s₂ = s
      · subst hs
        cases hentry : Table.get? s₂ es with
        | none => exact absurd (hnone hentry) (by simp [hlocked])
        | some u =>
          rw [visit_entry, hentry] at hmissing
          cases hmissing
      · rw [visit_set_of_ne hs]
        exact hmissing
    | cons s' ss =>
      rw [List.cons_append] at hmissing ⊢
      by_cases hs : s' = s
      · subst hs
        obtain ⟨u, hentry, hu⟩ := visit_entry_eq_ok.mp h
        rw [visit_entry, hentry] at hmissing
        rw [visit_set_self]
        exact (hsome u hentry).locked hu hlocked hmissing
      · rw [visit_set_of_ne hs]
        exact hmissing

/-! ### What bars the way -/

/-- The entry on the way to a missing place that the directory it belongs to does not take. -/
def lockedAt? : Tree → Location → Option Location
  | .directory es a, s :: ss =>
    match Table.get? s es with
    | none => if a.locked then some [s] else none
    | some t => (lockedAt? t ss).map (s :: ·)
  | _, _ => none

/-- What bars the writing of a file at a place, names that are too long apart, and where. -/
def bars? (t : Tree) (l : Location) : Option (Obstacle × Location) :=
  match t.barsFile l, t.visit l with
  | some b, _ => some b
  | none, .ok (.file _ true) => some (.forbidden, l)
  | none, _ => (t.lockedAt? l).map fun p => (.forbidden, p)

theorem lockedAt?_entry : (directory es a).lockedAt? (s :: ss) =
    match Table.get? s es with
    | none => if a.locked then some [s] else none
    | some t => (t.lockedAt? ss).map (s :: ·) := rfl

/-- An entry that is not taken is missing in a directory that takes none. -/
theorem lockedAt?_eq_some {p : Location} : t.lockedAt? l = some p ↔ ∃ q s r es a, l = q ++ s :: r ∧
    p = q ++ [s] ∧ t.visit q = .ok (directory es a) ∧ a.locked = true ∧
      t.visit (q ++ [s]) = .error .missing := by
  constructor
  · intro h
    induction l generalizing t p with
    | nil => cases t <;> cases h
    | cons s ss ih =>
      cases t with
      | file b r => cases h
      | directory es a =>
        rw [lockedAt?_entry] at h
        cases hentry : Table.get? s es with
        | none =>
          rw [hentry] at h
          dsimp only at h
          split at h
          next hlocked =>
            refine ⟨[], s, ss, es, a, rfl, (Option.some.inj h).symm, rfl, hlocked, ?_⟩
            rw [List.nil_append, visit_entry, hentry]
          · cases h
        | some u =>
          rw [hentry] at h
          obtain ⟨p', hp', rfl⟩ := Option.map_eq_some_iff.mp h
          obtain ⟨q, s', r, es', a', rfl, rfl, hq, hlocked, hmissing⟩ := ih hp'
          refine ⟨s :: q, s', r, es', a', rfl, rfl, ?_, hlocked, ?_⟩
          · rw [visit_entry, hentry]
            exact hq
          · rw [List.cons_append, visit_entry, hentry]
            exact hmissing
  · rintro ⟨q, s, r, es, a, rfl, rfl, hq, hlocked, hmissing⟩
    induction q generalizing t with
    | nil =>
      cases hq
      rw [List.nil_append, visit_entry] at hmissing
      rw [List.nil_append, lockedAt?_entry]
      cases hentry : Table.get? s es with
      | none => exact if_pos hlocked
      | some u =>
        rw [hentry] at hmissing
        cases hmissing
    | cons s' q ih =>
      cases t with
      | file b r' => cases hq
      | directory es' a' =>
        rw [visit_entry] at hq
        rw [List.cons_append, visit_entry] at hmissing
        rw [List.cons_append, lockedAt?_entry]
        cases hentry : Table.get? s' es' with
        | none =>
          rw [hentry] at hq
          cases hq
        | some u =>
          rw [hentry] at hq hmissing
          dsimp only
          rw [ih hq hmissing]
          rfl

/-- Nothing is locked on the way to what is there, or to what lies below a file. -/
theorem lockedAt?_of_not_missing (h : t.visit l ≠ .error .missing) : t.lockedAt? l = none := by
  refine Option.eq_none_iff_forall_not_mem.mpr fun p hp => ?_
  obtain ⟨q, s, r, es, a, rfl, -, -, -, hmissing⟩ := lockedAt?_eq_some.mp hp
  rw [List.append_cons, visit_append_of_error hmissing] at h
  exact h rfl

theorem bars?_eq_none_iff : t.bars? l = none ↔
    t.barsFile l = none ∧ (∀ b, t.visit l ≠ .ok (file b true)) ∧ t.lockedAt? l = none := by
  rw [bars?]
  cases hbars : t.barsFile l with
  | some b => simp
  | none =>
    cases hv : t.visit l with
    | error e => simp
    | ok u =>
      cases u with
      | directory es a => simp
      | file b r =>
        have hnone : t.lockedAt? l = none := lockedAt?_of_not_missing (by simp [hv])
        cases r <;> simp [hnone]

theorem bars?_top (t : Tree) : t.bars? [] ≠ none := fun h => barsFile_top t (bars?_eq_none_iff.mp h).1

theorem bars?_deeper {s' : Text} (h : (directory es a).bars? (s :: s' :: ss) = none)
    (hentry : Table.get? s es = some u) : u.bars? (s' :: ss) = none := by
  obtain ⟨hbars, hfile, hlocked⟩ := bars?_eq_none_iff.mp h
  rw [visit_entry, hentry] at hfile
  rw [lockedAt?_entry, hentry] at hlocked
  exact bars?_eq_none_iff.mpr
    ⟨barsFile_deeper.mp hbars u hentry, hfile, Option.map_eq_none_iff.mp hlocked⟩

/-! ### What is put in -/

/-- **A tree is extended by a file where nothing bars it.** -/
theorem extends_put_file (h : t.bars? l = none) (octets : ByteArray) :
    Extends t (t.put l (file octets)) := by
  induction l generalizing t with
  | nil => exact absurd h (bars?_top t)
  | cons s ss ih =>
    obtain ⟨hbars, hfile, hlocked⟩ := bars?_eq_none_iff.mp h
    cases t with
    | file b r => exact absurd hbars (barsFile_file b r _)
    | directory es a =>
      rw [lockedAt?_entry] at hlocked
      refine extends_set (fun u hentry => ?_) fun hentry => ?_
      · dsimp only [entries] at hentry ⊢
        rw [hentry, Option.getD_some]
        cases ss with
        | cons s' ss' => exact ih (bars?_deeper h hentry)
        | nil =>
          rw [visit_entry, hentry] at hfile
          cases u with
          | directory es' a' => exact absurd hentry (barsFile_entry.mp hbars es' a')
          | file b r =>
            cases r with
            | true => exact absurd rfl (hfile b)
            | false => exact extends_file b octets false
      · rw [hentry] at hlocked
        simpa using hlocked

/-- A directory can be made at a place, with those above it. -/
def Free (t : Tree) (l : Location) : Prop := t.visit l = .error .missing ∧ t.lockedAt? l = none

/-- What lies below an entry, seen from there; below a missing one lies nothing. -/
theorem Free.below (h : (directory es a).Free (s :: ss)) :
    ((Table.get? s es).getD empty).Free ss ∨ Table.get? s es = none ∧ ss = [] := by
  obtain ⟨hmissing, hlocked⟩ := h
  rw [visit_entry] at hmissing
  rw [lockedAt?_entry] at hlocked
  cases hentry : Table.get? s es with
  | some u =>
    rw [hentry] at hmissing hlocked
    exact .inl ⟨hmissing, Option.map_eq_none_iff.mp hlocked⟩
  | none =>
    cases ss with
    | nil => exact .inr ⟨rfl, rfl⟩
    | cons s' ss' => exact .inl ⟨rfl, rfl⟩

/-- A tree is extended by a directory where one can be made. -/
theorem extends_put_empty (h : t.Free l) : Extends t (t.put l empty) := by
  induction l generalizing t with
  | nil => cases h.1
  | cons s ss ih =>
    cases t with
    | file b r => cases h.1
    | directory es a =>
      refine extends_set (fun u hentry => ?_) fun hentry => ?_
      · dsimp only [entries] at hentry ⊢
        rcases h.below with hbelow | ⟨hnone, -⟩
        · rw [hentry, Option.getD_some] at hbelow ⊢
          exact ih hbelow
        · rw [hnone] at hentry
          cases hentry
      · have hlocked := h.2
        rw [lockedAt?_entry, hentry] at hlocked
        simpa using hlocked

/-- Making a directory leaves every place alone that is not on the way to it. -/
theorem visit_put_empty (h : t.Free l) (hm : ¬ m <+: l) : (t.put l empty).visit m = t.visit m := by
  induction l generalizing t m with
  | nil => cases h.1
  | cons s ss ih =>
    cases t with
    | file b r => cases h.1
    | directory es a =>
      cases m with
      | nil => exact absurd (List.nil_prefix) hm
      | cons s' ms =>
        rw [put, visit_entry, visit_entry]
        by_cases hs : s' = s
        · subst hs
          have hms : ¬ ms <+: ss := fun hp => hm (List.cons_prefix_cons.mpr ⟨rfl, hp⟩)
          have hnil : ms ≠ [] := fun hnil => hms (hnil ▸ List.nil_prefix)
          obtain ⟨s₂, ms₂, rfl⟩ := List.exists_cons_of_ne_nil hnil
          rw [Table.get?_set_self]
          dsimp only [entries]
          rcases h.below with hbelow | ⟨hnone, rfl⟩
          · rw [ih hbelow hms]
            cases Table.get? s' es <;> rfl
          · rw [hnone]
            rfl
        · dsimp only [entries]
          rw [Table.get?_set_of_ne hs]

/-- Making a directory leaves the files as they are. -/
theorem contents_put_empty (h : t.Free l) {o : ByteArray} :
    (t.put l empty).contents m = .ok o ↔ t.contents m = .ok o := by
  rw [contents_eq_ok, contents_eq_ok]
  by_cases hm : m <+: l
  · -- on the way there were directories, or nothing, and are directories now
    obtain ⟨k, rfl⟩ := hm
    have hno (r : Bool) : (t.put (m ++ k) empty).visit m ≠ .ok (file o r) := by
      intro hv
      induction m generalizing t with
      | nil => cases t <;> cases k <;> cases hv
      | cons s ms ih =>
        cases t with
        | file b r => cases h.1
        | directory es a =>
          rw [List.cons_append, put, visit_entry, Table.get?_set_self] at hv
          rcases h.below with hbelow | ⟨-, hnil⟩
          · exact ih hbelow hv
          · obtain ⟨rfl, rfl⟩ := List.append_eq_nil_iff.mp hnil
            cases hv
    have hno' (r : Bool) : t.visit m ≠ .ok (file o r) := by
      intro hv
      have hmissing := h.1
      rw [visit_append hv] at hmissing
      cases k <;> cases hmissing
    constructor
    · rintro ⟨r, hr⟩
      exact absurd hr (hno r)
    · rintro ⟨r, hr⟩
      exact absurd hr (hno' r)
  · rw [visit_put_empty h hm]

/-! ### What still bars the way -/

/-- What bars the making of directories still bars it. -/
theorem Extends.barsDirectory (h : Extends t t') (hm : t.barsDirectory m = some o) :
    t'.barsDirectory m = some o := by
  rw [Tree.barsDirectory] at hm ⊢
  cases hv : t.visit m with
  | ok u =>
    rw [hv] at hm
    cases u with
    | directory es a => cases hm
    | file b r =>
      obtain ⟨b', hv'⟩ := h.file hv
      rw [hv']
      exact hm
  | error e =>
    rw [hv] at hm
    rcases visit_error hv with rfl | rfl
    · cases hm
    · obtain ⟨p, s, q, b, r, rfl, hp⟩ := visit_notDirectory_iff.mp hv
      obtain ⟨b', hp'⟩ := h.file hp
      rw [visit_notDirectory_iff.mpr ⟨p, s, q, b', r, rfl, hp'⟩]
      exact hm

theorem Extends.barsFile (h : Extends t t') {b : Obstacle × Location} (hm : t.barsFile m = some b) :
    t'.barsFile m = some b := by
  rw [Tree.barsFile] at hm
  cases hdir : t.barsDirectory m.parent with
  | some o =>
    rw [hdir] at hm
    rw [Tree.barsFile, h.barsDirectory hdir]
    exact hm
  | none =>
    rw [hdir] at hm
    cases hv : t.visit m with
    | error e =>
      rw [hv] at hm
      cases hm
    | ok u =>
      rw [hv] at hm
      cases u with
      | file c r => cases hm
      | directory es a =>
        obtain ⟨es', hv'⟩ := h.directory hv
        obtain ⟨es₂, a₂, hparent⟩ := visit_parent hv'
        rw [Tree.barsFile, Tree.barsDirectory, hparent, hv']
        exact hm

theorem Extends.lockedAt? (h : Extends t t') {p : Location} (hm : t.lockedAt? m = some p) :
    t'.lockedAt? m = some p := by
  obtain ⟨q, s, r, es, a, rfl, rfl, hq, hlocked, hmissing⟩ := lockedAt?_eq_some.mp hm
  obtain ⟨es', hq'⟩ := h.directory hq
  exact lockedAt?_eq_some.mpr ⟨q, s, r, es', a, rfl, rfl, hq', hlocked, h.locked hq hlocked hmissing⟩

/-- Where an entry is missing, nothing bars the writing of a file below it. -/
theorem barsFile_of_missing (hl : l ≠ []) (h : t.visit l = .error .missing) : t.barsFile l = none := by
  refine barsFile_eq_none_iff.mpr ⟨?_, fun es a hv => by rw [h] at hv; cases hv⟩
  obtain rfl | ⟨p, s, rfl⟩ := List.eq_nil_or_concat' l
  · exact absurd rfl hl
  · rw [Location.parent, List.dropLast_concat, Tree.barsDirectory]
    cases hp : t.visit p with
    | ok u =>
      cases u with
      | directory es a => rfl
      | file b r =>
        rw [visit_append hp] at h
        cases h
    | error e =>
      rw [visit_append_of_error hp] at h
      rw [Except.error.inj h]

/-- **What bars the writing of a file still bars it later.** -/
theorem Extends.bars? (h : Extends t t') {b : Obstacle × Location} (hm : t.bars? m = some b) :
    t'.bars? m = some b := by
  rw [Tree.bars?] at hm
  cases hbars : t.barsFile m with
  | some b' =>
    rw [hbars] at hm
    rw [Tree.bars?, h.barsFile hbars]
    exact hm
  | none =>
    rw [hbars] at hm
    have hmne : m ≠ [] := by
      rintro rfl
      exact barsFile_top t hbars
    by_cases hlockedFile : ∃ c, t.visit m = .ok (.file c true)
    · obtain ⟨c, hv⟩ := hlockedFile
      rw [hv] at hm
      obtain ⟨c', hv'⟩ := h.file hv
      rw [Tree.bars?, barsFile_of_contents hmne (contents_eq_ok.mpr ⟨true, hv'⟩), hv']
      exact hm
    · have hat : (t.lockedAt? m).map (fun p => (Obstacle.forbidden, p)) = some b := by
        split at hm
        · next hsome => cases hsome
        · next hv => exact absurd ⟨_, hv⟩ hlockedFile
        · exact hm
      obtain ⟨p, hp, rfl⟩ := Option.map_eq_some_iff.mp hat
      have hp' := h.lockedAt? hp
      have hmissing : t'.visit m = .error .missing := by
        by_contra hne
        rw [lockedAt?_of_not_missing hne] at hp'
        cases hp'
      rw [Tree.bars?, barsFile_of_missing hmne hmissing, hmissing]
      dsimp only
      rw [hp']
      rfl

end Graft.Tree
