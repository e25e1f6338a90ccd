import Graft.Disk.Steps
import Graft.Proofs.Disk.Persistence
import Mathlib.Data.List.Induction

/-
A file written step by step.

* `visit_put_append`, `put_put_append` — what is below a place once something is put there;
* `barrier?_append`, `barrier?_put` — what is met on the way to a place, and to what is put there;
* `Making n t l`, `making` — what the making of a directory, with those above it, can come to;
* `Stored n t l octets`, `stored` — **a file is written, or it is barred and the tree is as it was, or a
  name on the way is too long and directories have been made down to it**;
* `Stored.extends`, `Stored.contents` — whatever it comes to, the tree is extended, and no file but the
  one that is written is another.

Design notes: a place is written to only after it has been looked up, so nothing on the way to it is
closed, and a name that is too long can only be met below a directory that has just been made.  The
induction is on the place spelled backwards, as the directories are tried.
-/
namespace Graft.Tree

variable {t t' u : Tree} {l m : Location} {octets : ByteArray} {n : Option Nat}

theorem parent_concat (l : Location) (s : Text) : Location.parent (l ++ [s]) = l := by
  rw [Location.parent, List.dropLast_concat]

/-! ### What is put at a place -/

/-- Below a place is what was put there. -/
theorem visit_put_append (t x : Tree) (l m : Location) : (t.put l x).visit (l ++ m) = x.visit m := by
  induction l generalizing t with
  | nil => rfl
  | cons s ss ih =>
    rw [put, List.cons_append, visit_entry, Table.get?_set_self]
    exact ih _

theorem visit_put_self (t x : Tree) (l : Location) : (t.put l x).visit l = .ok x := by
  have hv := visit_put_append t x l []
  rw [List.append_nil] at hv
  exact hv

/-- Of two things put at a place the second is kept. -/
theorem put_put (t x y : Tree) (l : Location) : (t.put l x).put l y = t.put l y := by
  induction l generalizing t with
  | nil => rfl
  | cons s ss ih =>
    simp only [put, entries, access, Table.get?_set_self, Table.set_set, Option.getD_some, ih]

/-- What is put where it stands changes nothing. -/
theorem put_visit (h : t.visit l = .ok u) : t.put l u = t := by
  induction l generalizing t with
  | nil => exact (Except.ok.inj h).symm
  | cons s ss ih =>
    cases t with
    | file b r => cases h
    | directory es a =>
      rw [visit_entry] at h
      cases hs : Table.get? s es with
      | none =>
        rw [hs] at h
        cases h
      | some t' =>
        rw [hs] at h
        simp only [put, entries, access, hs, Option.getD_some, ih h, Table.set_of_get? hs]

/-- Where there is nothing, a directory made first is what would be made on the way. -/
theorem put_put_append (h : t.visit l = .error .missing ∨ t.visit l = .ok empty) (x : Tree) :
    (t.put l empty).put (l ++ m) x = t.put (l ++ m) x := by
  induction l generalizing t with
  | nil =>
    rcases h with h | h
    · cases h
    · rw [Except.ok.inj h]
      rfl
  | cons s ss ih =>
    cases t with
    | file b r => rcases h with h | h <;> cases h
    | directory es a =>
      have hbelow : ((Table.get? s es).getD empty).visit ss = .error .missing ∨
          ((Table.get? s es).getD empty).visit ss = .ok empty := by
        rw [visit_entry] at h
        cases hs : Table.get? s es with
        | some t' =>
          rw [hs] at h
          exact h
        | none =>
          cases ss with
          | nil => exact Or.inr rfl
          | cons s' ss' => exact Or.inl rfl
      simp only [put, entries, access, List.cons_append, Table.get?_set_self, Table.set_set,
        Option.getD_some, ih hbelow]

/-! ### What is met on the way -/

theorem barrier?_nil (n : Option Nat) (t : Tree) : t.barrier? n [] = none := by
  cases t <;> rfl

theorem barrier?_entry (n : Option Nat) (es : List (Text × Tree)) (a : Access) (s : Text)
    (ss : Location) : (directory es a).barrier? n (s :: ss) =
      if a.closed then some .forbidden
      else if Limits.exceeds n s then some .tooLong
      else (Table.get? s es).elim none fun t => t.barrier? n ss := by
  rw [barrier?]
  cases Table.get? s es <;> rfl

/-- What is met on the way to a place is met first on the way to what lies below. -/
theorem barrier?_append (h : t.visit l = .ok u) :
    t.barrier? n (l ++ m) = (t.barrier? n l).or (u.barrier? n m) := by
  induction l generalizing t with
  | nil =>
    obtain rfl := Except.ok.inj h
    rw [List.nil_append, barrier?_nil, Option.none_or]
  | cons s ss ih =>
    cases t with
    | file b r => cases h
    | directory es a =>
      rw [visit_entry] at h
      rw [List.cons_append, barrier?_entry, barrier?_entry]
      cases hs : Table.get? s es with
      | none =>
        rw [hs] at h
        cases h
      | some t' =>
        rw [hs] at h
        simp only [Option.elim_some, ih h]
        split
        · rfl
        · split <;> rfl

/-- Below what is not there nothing more is met. -/
theorem barrier?_append_of_error {o : Obstacle} (h : t.visit l = .error o) :
    t.barrier? n (l ++ m) = t.barrier? n l := by
  induction l generalizing t with
  | nil => cases h
  | cons s ss ih =>
    cases t with
    | file b r => rfl
    | directory es a =>
      rw [visit_entry] at h
      rw [List.cons_append, barrier?_entry, barrier?_entry]
      cases hs : Table.get? s es with
      | none => rfl
      | some t' =>
        rw [hs] at h
        simp only [Option.elim_some, ih h]

/-- Nothing is met on the way to a place above one that nothing is met on the way to. -/
theorem barrier?_above (h : t.barrier? n (l ++ m) = none) : t.barrier? n l = none := by
  cases hv : t.visit l with
  | ok u =>
    rw [barrier?_append hv, Option.or_eq_none_iff] at h
    exact h.1
  | error o => rwa [barrier?_append_of_error hv] at h

/-- On the way to what is put into a directory one meets what one met before. -/
theorem barrier?_put {es : List (Text × Tree)} {a : Access}
    (h : t.visit l.parent = .ok (directory es a)) (x : Tree) :
    (t.put l x).barrier? n l = t.barrier? n l := by
  induction l generalizing t with
  | nil => rw [barrier?_nil, barrier?_nil]
  | cons s ss ih =>
    cases t with
    | file b r => cases ss <;> cases h
    | directory es' a' =>
      rw [put, barrier?_entry, barrier?_entry, Table.get?_set_self]
      dsimp only [entries, access]
      cases ss with
      | nil => cases Table.get? s es' <;> simp [barrier?_nil]
      | cons s' ss' =>
        have hparent : Location.parent (s :: s' :: ss') = s :: Location.parent (s' :: ss') := rfl
        rw [hparent, visit_entry] at h
        cases hs : Table.get? s es' with
        | none =>
          rw [hs] at h
          cases h
        | some u =>
          rw [hs] at h
          rw [Option.getD_some, Option.elim_some, Option.elim_some, ih h]
          rfl

theorem walk_eq_visit (h : t.barrier? n l = none) : t.walk n l = t.visit l := by
  rw [walk, h]

/-- What is met on the way to a place is met on the way to one below it. -/
theorem Extends.barrier? {o : Obstacle} (h : Extends t t') (hl : t.barrier? n l = some o) :
    t'.barrier? n l = some o := by
  induction l generalizing t t' with
  | nil =>
    rw [barrier?_nil] at hl
    cases hl
  | cons s ss ih =>
    cases t with
    | file b r => cases hl
    | directory es a =>
      obtain ⟨es', htop⟩ := h.directory (l := []) rfl
      obtain rfl := Except.ok.inj htop
      rw [barrier?_entry] at hl ⊢
      by_cases hclosed : a.closed = true
      · rwa [if_pos hclosed] at hl ⊢
      rw [if_neg hclosed] at hl ⊢
      by_cases hlong : Limits.exceeds n s = true
      · rwa [if_pos hlong] at hl ⊢
      rw [if_neg hlong] at hl ⊢
      cases hs : Table.get? s es with
      | none =>
        rw [hs] at hl
        cases hl
      | some u =>
        rw [hs, Option.elim_some] at hl
        -- what an entry was it still is, or is what extends it
        have hentry {x : Tree} (l : Location) (hx : u.visit l = .ok x) :
            (Tree.directory es a).visit (s :: l) = .ok x := by
          rw [visit_entry, hs]
          exact hx
        obtain ⟨u', hs'⟩ : ∃ u', Table.get? s es' = some u' := by
          cases hs' : Table.get? s es' with
          | some u' => exact ⟨u', rfl⟩
          | none =>
            cases u with
            | directory es₂ a₂ =>
              obtain ⟨es₃, hv⟩ := h.directory (hentry [] rfl)
              rw [visit_entry, hs'] at hv
              cases hv
            | file b r =>
              obtain ⟨b', hv⟩ := h.file (hentry [] rfl)
              rw [visit_entry, hs'] at hv
              cases hv
        have hvisit (l : Location) : (Tree.directory es' a).visit (s :: l) = u'.visit l := by
          rw [visit_entry, hs']
        rw [hs', Option.elim_some]
        refine ih (?_ : Extends u u') hl
        refine ⟨fun hl => ?_, fun hl => ?_, fun hl hlocked hmissing => ?_⟩
        · obtain ⟨es₃, hv⟩ := h.directory (hentry _ hl)
          exact ⟨es₃, (hvisit _).symm.trans hv⟩
        · obtain ⟨b', hv⟩ := h.file (hentry _ hl)
          exact ⟨b', (hvisit _).symm.trans hv⟩
        · refine (hvisit _).symm.trans (h.locked (l := s :: _) (hentry _ hl) hlocked ?_)
          rw [List.cons_append, visit_entry, hs]
          exact hmissing

/-- On the way to a place in a directory one meets later what one met before. -/
theorem Extends.barrier?_eq (h : Extends t t') {es : List (Text × Tree)} {a : Access}
    (hup : t.visit l.parent = .ok (.directory es a)) : t'.barrier? n l = t.barrier? n l := by
  induction l using List.reverseRecOn generalizing es a with
  | nil => rw [barrier?_nil, barrier?_nil]
  | append_singleton p s ih =>
    rw [parent_concat] at hup
    obtain ⟨es', hup'⟩ := h.directory hup
    obtain ⟨es₂, a₂, habove⟩ := visit_parent hup
    have hlast (es : List (Text × Tree)) : (Tree.directory es a).barrier? n [s] =
        if a.closed then some .forbidden else if Limits.exceeds n s then some .tooLong else none := by
      rw [barrier?_entry]
      cases Table.get? s es <;> simp [barrier?_nil]
    rw [barrier?_append hup, barrier?_append hup', ih habove, hlast, hlast]

/-- Below a file nothing is met. -/
theorem barrier?_below_file {p : Location} {s : Text} {b : ByteArray} {r : Bool}
    (h : t.visit p = .ok (file b r)) : t.barrier? n (p ++ s :: m) = t.barrier? n p := by
  have hfile : (file b r).barrier? n (s :: m) = none := rfl
  rw [barrier?_append h, hfile, Option.or_none]

/-- Where a file stands there is a directory above it, or it is the top. -/
theorem eq_nil_or_parent (h : t.visit l = .ok u) :
    l = [] ∨ ∃ es a, t.visit l.parent = .ok (directory es a) := by
  obtain rfl | ⟨p, s, rfl⟩ := List.eq_nil_or_concat' l
  · exact .inl rfl
  · rw [parent_concat]
    cases hp : t.visit p with
    | error e =>
      rw [visit_append_of_error hp] at h
      cases h
    | ok u' =>
      cases u' with
      | directory es a => exact .inr ⟨es, a, rfl⟩
      | file b r =>
        rw [visit_append hp] at h
        cases h

/-- On the way to what is there one meets later what one met before. -/
theorem Extends.barrier?_found (h : Extends t t') (hl : t.visit l = .ok u) :
    t'.barrier? n l = t.barrier? n l := by
  rcases eq_nil_or_parent hl with rfl | ⟨es, a, hup⟩
  · rw [barrier?_nil, barrier?_nil]
  · exact h.barrier?_eq hup

/-- On the way to a place where a file is barred one meets later what one met before. -/
theorem Extends.barrier?_barred (h : Extends t t') {b : Obstacle × Location} (hb : t.bars? l = some b) :
    t'.barrier? n l = t.barrier? n l := by
  -- a file on the way stays, and nothing is met below it
  have hbelow (hv : t.visit l = .error .notDirectory) : t'.barrier? n l = t.barrier? n l := by
    obtain ⟨p, s, q, o, r, rfl, hp⟩ := visit_notDirectory_iff.mp hv
    obtain ⟨o', hp'⟩ := h.file hp
    rw [barrier?_below_file hp, barrier?_below_file hp', h.barrier?_found hp]
  cases hv : t.visit l with
  | ok u => exact h.barrier?_found hv
  | error e =>
    rcases visit_error hv with rfl | rfl
    · cases hlocked : t.lockedAt? l with
      | none =>
        by_cases hl : l = []
        · rw [hl, barrier?_nil, barrier?_nil]
        · rw [bars?_eq_none_iff.mpr ⟨barsFile_of_missing hl hv, by simp [hv], hlocked⟩] at hb
          cases hb
      | some p =>
        -- the entry that is not taken is missing later, too
        obtain ⟨q, s, r, es, a, rfl, -, hq, hclosed, hmissing⟩ := lockedAt?_eq_some.mp hlocked
        rw [List.append_cons, barrier?_append_of_error hmissing,
          barrier?_append_of_error (h.locked hq hclosed hmissing)]
        exact h.barrier?_eq (by rw [parent_concat]; exact hq)
    · exact hbelow hv

/-- Whatever bars the writing of a file, it is not the length of a name. -/
theorem bars?_ne_tooLong {p : Location} : t.bars? l ≠ some (.tooLong, p) := by
  intro h
  rw [bars?] at h
  split at h
  next b hbars =>
    cases h
    rw [barsFile] at hbars
    split at hbars
    next hdir =>
      cases hbars
      rw [barsDirectory] at hdir
      split at hdir <;> cases hdir
    · cases hbars
    · cases hbars
  · cases h
  · obtain ⟨p', -, hp⟩ := Option.map_eq_some_iff.mp h
    cases hp

/-! ### Directories -/

theorem makeOne_of_ok (h : t.walk n l = .ok u) : t.makeOne n l = .error .occupied := by
  rw [makeOne, h]

theorem place_in {es : List (Text × Tree)} {a : Access} (h : t.visit l.parent = .ok (directory es a))
    (x : Tree) : t.place l x = if a.locked then .error .forbidden else .ok (t.put l x) := by
  rw [place, h]

/-- Below a place where a directory can be made, one can be made as well. -/
theorem Free.append (h : t.Free l) : t.Free (l ++ m) := by
  refine ⟨visit_append_of_error h.1, Option.eq_none_iff_forall_not_mem.mpr fun p hp => ?_⟩
  obtain ⟨q, s, r, es, a, hlm, rfl, hq, hlocked, hmissing⟩ := lockedAt?_eq_some.mp hp
  rcases List.append_eq_append_iff.mp hlm with ⟨k, rfl, -⟩ | ⟨k, rfl, hk⟩
  · rw [visit_append_of_error h.1] at hq
    cases hq
  · cases k with
    | nil =>
      rw [List.append_nil] at h
      rw [h.1] at hq
      cases hq
    | cons s' k' =>
      obtain rfl := (List.cons.inj hk).1
      have hat : t.lockedAt? (q ++ s :: k') = some (q ++ [s]) :=
        lockedAt?_eq_some.mpr ⟨q, s, k', es, a, rfl, rfl, hq, hlocked, hmissing⟩
      rw [h.2] at hat
      cases hat

/-- In a directory that takes entries one can be made that is missing. -/
theorem free_concat {es : List (Text × Tree)} {a : Access} {s : Text}
    (hl : t.visit l = .ok (directory es a)) (hopen : a.locked = false)
    (hmissing : t.visit (l ++ [s]) = .error .missing) : t.Free (l ++ [s]) := by
  refine ⟨hmissing, Option.eq_none_iff_forall_not_mem.mpr fun p hp => ?_⟩
  obtain ⟨q, s', r, es', a', hls, rfl, hq, hlocked, hmissing'⟩ := lockedAt?_eq_some.mp hp
  obtain rfl | ⟨r', s₂, rfl⟩ := List.eq_nil_or_concat' r
  · obtain ⟨rfl, -⟩ := List.append_inj' hls rfl
    rw [hl] at hq
    cases hq
    rw [hopen] at hlocked
    cases hlocked
  · have hls' : l ++ [s] = (q ++ s' :: r') ++ [s₂] := by rw [hls, List.append_assoc, List.cons_append]
    obtain ⟨rfl, -⟩ := List.append_inj' hls' rfl
    rw [List.append_cons, visit_append_of_error hmissing'] at hl
    cases hl

/-- What is locked on the way to a place is locked on the way to every place below it. -/
theorem lockedAt?_append {p : Location} (h : t.lockedAt? l = some p) :
    t.lockedAt? (l ++ m) = some p ∧ t.visit (l ++ m) = .error .missing := by
  obtain ⟨q, s, r, es, a, rfl, rfl, hdir, hlocked, hmissing⟩ := lockedAt?_eq_some.mp h
  have hway : q ++ s :: r ++ m = q ++ s :: (r ++ m) := by rw [List.append_assoc, List.cons_append]
  constructor
  · exact lockedAt?_eq_some.mpr ⟨q, s, r ++ m, es, a, hway, rfl, hdir, hlocked, hmissing⟩
  · rw [hway, List.append_cons]
    exact visit_append_of_error hmissing

/-! A directory that was just made. -/

theorem visit_below_put_empty (t : Tree) (l : Location) (s : Text) (r : List Text) :
    (t.put l empty).visit (l ++ s :: r) = .error .missing := by
  rw [visit_put_append]
  rfl

theorem barrier?_put_empty {s : Text} (reached : (t.put l empty).barrier? n l = none) :
    (t.put l empty).barrier? n (l ++ [s]) = if Limits.exceeds n s then some .tooLong else none := by
  rw [barrier?_append (visit_put_self t empty l), reached, Option.none_or]
  rfl

theorem place_put_empty (free : t.Free l) (s : Text) (x : Tree) :
    (t.put l empty).place (l ++ [s]) x = .ok (t.put (l ++ [s]) x) := by
  have hparent : (t.put l empty).visit (Location.parent (l ++ [s])) = .ok (directory [] {}) := by
    rw [parent_concat]
    exact visit_put_self t empty l
  rw [place_in hparent, if_neg (by simp), put_put_append (Or.inl free.1)]

/-- What is put in a directory that was just made can be looked up like the directory. -/
theorem barrier?_put_below {s : Text} (free : t.Free l) (reached : (t.put l empty).barrier? n l = none)
    (hshort : Limits.exceeds n s = false) (x : Tree) :
    (t.put (l ++ [s]) x).barrier? n (l ++ [s]) = none := by
  have hparent : (t.put l empty).visit (Location.parent (l ++ [s])) = .ok empty := by
    rw [parent_concat]
    exact visit_put_self t empty l
  have hreached := barrier?_put (n := n) hparent x
  rwa [put_put_append (Or.inl free.1), barrier?_put_empty reached, hshort, if_neg (by simp)] at hreached

/-- What the making of a directory, with those above it, can come to. -/
inductive Making (n : Option Nat) (t : Tree) (l : Location) :
    Option (Obstacle × Location) × Tree → Prop
  | found {es : List (Text × Tree)} {a : Access} (there : t.visit l = .ok (.directory es a)) :
      Making n t l (none, t)
  | made (free : t.Free l) (reached : (t.put l empty).barrier? n l = none) :
      Making n t l (none, t.put l empty)
  | barred {o : Obstacle} (bars : t.barsDirectory l = some o) : Making n t l (some (o, l), t)
  | locked {p : Location} (at_ : t.lockedAt? l = some p) : Making n t l (some (.forbidden, p), t)
  -- Directories are made down to a name that is too long.
  | cut {q : Location} {s : Text} {r : List Text} (way : l = q ++ s :: r)
      (long : Limits.exceeds n s = true) (free : t.Free q)
      (reached : (t.put q empty).barrier? n l = some .tooLong) :
      Making n t l (some (.tooLong, q ++ [s]), t.put q empty)

theorem makeOrFind_of_error {o : Obstacle} (hone : t.makeOne n l = .error o)
    (hwalk : ∀ es a, t.walk n l ≠ .ok (directory es a)) : t.makeOrFind n l = (some (o, l), t) := by
  rw [makeOrFind, hone]
  dsimp only
  split
  next hdir => exact absurd hdir (hwalk _ _)
  · rfl

/-- The directory below one that was just made is made, unless its name is too long. -/
theorem making_below {s : Text} (free : t.Free l) (reached : (t.put l empty).barrier? n l = none) :
    Making n t (l ++ [s]) ((t.put l empty).makeOrFind n (l ++ [s])) := by
  have hbarrier := barrier?_put_empty (s := s) reached
  cases hlong : Limits.exceeds n s with
  | true =>
    rw [hlong, if_pos rfl] at hbarrier
    have hwalk : (t.put l empty).walk n (l ++ [s]) = .error .tooLong := by rw [walk, hbarrier]
    have hone : (t.put l empty).makeOne n (l ++ [s]) = .error .tooLong := by rw [makeOne, hwalk]
    rw [makeOrFind_of_error hone (by simp [hwalk])]
    exact .cut rfl hlong free hbarrier
  | false =>
    rw [hlong, if_neg Bool.false_ne_true] at hbarrier
    have hone : (t.put l empty).makeOne n (l ++ [s]) = .ok (t.put (l ++ [s]) empty) := by
      rw [makeOne, walk_eq_visit hbarrier, visit_below_put_empty]
      exact place_put_empty free s empty
    have hmade : (t.put l empty).makeOrFind n (l ++ [s]) = (none, t.put (l ++ [s]) empty) := by
      rw [makeOrFind, hone]
    rw [hmade]
    exact .made free.append (barrier?_put_below free reached hlong empty)

/-- The making of a directory stops below where that of one above it stops. -/
theorem Making.append {b : Obstacle × Location} (h : Making n t l (some b, t'))
    (hmissing : t.visit l = .error .missing) : Making n t (l ++ m) (some b, t') := by
  cases h with
  | barred bars =>
    rw [barsDirectory, hmissing] at bars
    cases bars
  | locked at_ => exact .locked (lockedAt?_append at_).1
  | @cut q s r way long free reached =>
    subst way
    refine .cut (r := r ++ m) (by rw [List.append_assoc, List.cons_append]) long free ?_
    rw [barrier?_append_of_error (visit_below_put_empty t q s r)]
    exact reached

/-- A directory is made in one that is there and not locked. -/
theorem making_in {s : Text} {es : List (Text × Tree)} {a : Access}
    (h : t.barrier? n (l ++ [s]) = none) (hup : t.visit l = .ok (directory es a))
    (hmissing : t.visit (l ++ [s]) = .error .missing) :
    t.makeOne n (l ++ [s]) ≠ .error .missing ∧ Making n t (l ++ [s]) (t.makeOrFind n (l ++ [s])) := by
  have hwalk := walk_eq_visit h
  rw [hmissing] at hwalk
  have hparent : t.visit (Location.parent (l ++ [s])) = .ok (directory es a) := by
    rw [parent_concat]
    exact hup
  have hone : t.makeOne n (l ++ [s]) =
      if a.locked then .error .forbidden else .ok (t.put (l ++ [s]) empty) := by
    rw [makeOne, hwalk]
    exact place_in hparent empty
  cases hlocked : a.locked with
  | true =>
    rw [hlocked, if_pos rfl] at hone
    refine ⟨by simp [hone], ?_⟩
    rw [makeOrFind_of_error hone (by simp [hwalk])]
    exact .locked (lockedAt?_eq_some.mpr ⟨l, s, [], es, a, rfl, rfl, hup, hlocked, hmissing⟩)
  | false =>
    rw [hlocked, if_neg Bool.false_ne_true] at hone
    have hmade : t.makeOrFind n (l ++ [s]) = (none, t.put (l ++ [s]) empty) := by
      rw [makeOrFind, hone]
    refine ⟨by simp [hone], ?_⟩
    rw [hmade]
    exact .made (free_concat hup hlocked hmissing) ((barrier?_put hparent empty).trans h)

/-- Where something is, a directory is found or nothing is made. -/
theorem making_of_visit (h : t.barrier? n l = none) (hv : t.visit l = .ok u) :
    t.makeOne n l ≠ .error .missing ∧ Making n t l (t.makeOrFind n l) := by
  have hwalk := (walk_eq_visit h).trans hv
  have hone := makeOne_of_ok hwalk
  refine ⟨by simp [hone], ?_⟩
  cases u with
  | directory es a =>
    have hfind : t.makeOrFind n l = (none, t) := by rw [makeOrFind, hone, hwalk]
    rw [hfind]
    exact .found hv
  | file b r =>
    rw [makeOrFind_of_error hone (by simp [hwalk])]
    exact .barred (by rw [barsDirectory, hv])

theorem makeUpwards_of_ne {s : Text} {above : List Text}
    (h : t.makeOne n (above.reverse ++ [s]) ≠ .error .missing) :
    t.makeUpwards n (s :: above) = t.makeOrFind n (above.reverse ++ [s]) := by
  rw [makeUpwards, List.reverse_cons]
  split
  next hmissing => exact absurd hmissing h
  · rfl

/-- Where the directory above is missing and can be made, the making is tried again. -/
theorem makeUpwards_below {s : Text} {above : List Text}
    (h : t.makeOne n (above.reverse ++ [s]) = .error .missing)
    (hup : t.makeUpwards n above = (none, t')) :
    t.makeUpwards n (s :: above) = t'.makeOrFind n (above.reverse ++ [s]) := by
  simp only [makeUpwards, List.reverse_cons, h, hup]

theorem makeUpwards_stopped {s : Text} {above : List Text} {b : Obstacle × Location}
    (h : t.makeOne n (above.reverse ++ [s]) = .error .missing)
    (hup : t.makeUpwards n above = (some b, t')) : t.makeUpwards n (s :: above) = (some b, t') := by
  simp only [makeUpwards, List.reverse_cons, h, hup]

/-- What the making of a directory comes to where nothing is met on the way. -/
theorem making (up : List Text) (h : t.barrier? n up.reverse = none) :
    Making n t up.reverse (t.makeUpwards n up) := by
  induction up with
  | nil =>
    cases t with
    | directory es a => exact .found rfl
    | file b r => exact .barred rfl
  | cons s above ih =>
    rw [List.reverse_cons] at h ⊢
    have hwalk := walk_eq_visit h
    cases hv : t.visit (above.reverse ++ [s]) with
    | ok u =>
      have hthere := making_of_visit h hv
      rw [makeUpwards_of_ne hthere.1]
      exact hthere.2
    | error e =>
      rw [hv] at hwalk
      rcases visit_error hv with rfl | rfl
      · cases hup : t.visit above.reverse with
        | ok u =>
          cases u with
          | file b r =>
            rw [visit_append hup] at hv
            cases hv
          | directory es a =>
            have hin := making_in h hup hv
            rw [makeUpwards_of_ne hin.1]
            exact hin.2
        | error e' =>
          -- the directory above is missing, too, and is made first
          rw [visit_append_of_error hup] at hv
          obtain rfl := Except.error.inj hv
          have hone : t.makeOne n (above.reverse ++ [s]) = .error .missing := by
            rw [makeOne, hwalk]
            dsimp only
            rw [place, parent_concat, hup]
          have hmaking := ih (barrier?_above h)
          obtain ⟨b, t', hmade⟩ : ∃ b t', t.makeUpwards n above = (b, t') := ⟨_, _, rfl⟩
          rw [hmade] at hmaking
          cases b with
          | some b =>
            rw [makeUpwards_stopped hone hmade]
            exact hmaking.append hup
          | none =>
            rw [makeUpwards_below hone hmade]
            cases hmaking with
            | found there =>
              rw [hup] at there
              cases there
            | made free reached => exact making_below free reached
      · have hone : t.makeOne n (above.reverse ++ [s]) = .error .notDirectory := by rw [makeOne, hwalk]
        rw [makeUpwards_of_ne (by simp [hone]), makeOrFind_of_error hone (by simp [hwalk])]
        exact .barred (by rw [barsDirectory, hv])

/-! ### Files -/

/-- What the writing of a file can come to. -/
inductive Stored (n : Option Nat) (t : Tree) (l : Location) (octets : ByteArray) :
    Option (Obstacle × Location) × Tree → Prop
  | written (clear : t.bars? l = none) (reached : (t.put l (.file octets)).barrier? n l = none) :
      Stored n t l octets (none, t.put l (.file octets))
  | barred {b : Obstacle × Location} (bars : t.bars? l = some b) : Stored n t l octets (some b, t)
  -- Directories are made down to a name that is too long.
  | cut {q : Location} {s : Text} {r : List Text} (clear : t.bars? l = none) (way : l = q ++ s :: r)
      (long : Limits.exceeds n s = true) (free : t.Free q)
      (reached : (t.put q empty).barrier? n l = some .tooLong) :
      Stored n t l octets (some (.tooLong, q ++ [s]), t.put q empty)

/-- A file written in the place of another can be written back. -/
theorem extends_put_back {b : ByteArray} (h : t.bars? l = none) (hv : t.visit l = .ok (file b false)) :
    Extends (t.put l (file octets)) t := by
  have hl : l ≠ [] := by
    rintro rfl
    exact bars?_top t h
  have hback : (t.put l (file octets)).bars? l = none := by
    have hv' := visit_put_self t (file octets) l
    exact bars?_eq_none_iff.mpr ⟨barsFile_of_contents hl (contents_eq_ok.mpr ⟨false, hv'⟩),
      by simp [hv'], lockedAt?_of_not_missing (by simp [hv'])⟩
  have hput := extends_put_file hback b
  rwa [put_put, put_visit hv] at hput

/-- Nothing bars a file where a directory could be made. -/
theorem Free.bars? (h : t.Free l) : t.bars? l = none := by
  have hl : l ≠ [] := by
    rintro rfl
    cases h.1
  exact bars?_eq_none_iff.mpr ⟨barsFile_of_missing hl h.1, by simp [h.1], h.2⟩

/-- A file is opened in a directory that was there. -/
theorem stored_found {es : List (Text × Tree)} {a : Access} (h : t.barrier? n l = none)
    (hup : t.visit l.parent = .ok (directory es a)) : Stored n t l octets
      (match t.openFile n l with
        | .ok t' => (none, t'.put l (file octets))
        | .error o => (some (o, l), t)) := by
  have hwalk := walk_eq_visit h
  have hdir : t.barsDirectory l.parent = none := by rw [barsDirectory, hup]
  have hreached : (t.put l (file octets)).barrier? n l = none := (barrier?_put hup _).trans h
  rw [openFile, hwalk]
  cases hv : t.visit l with
  | ok u =>
    cases u with
    | directory es' a' =>
      refine .barred ?_
      rw [bars?, barsFile, hdir, hv]
    | file b r =>
      have hbars : t.barsFile l = none := barsFile_eq_none_iff.mpr ⟨hdir, by simp [hv]⟩
      cases r with
      | true =>
        refine .barred ?_
        rw [bars?, hbars, hv]
      | false =>
        dsimp only
        rw [if_neg Bool.false_ne_true]
        dsimp only
        rw [put_put]
        exact .written (bars?_eq_none_iff.mpr
          ⟨hbars, by simp [hv], lockedAt?_of_not_missing (by simp [hv])⟩) hreached
  | error e =>
    obtain rfl | ⟨p, s, rfl⟩ := List.eq_nil_or_concat' l
    · cases hv
    rw [parent_concat] at hup
    have hmissing : e = .missing := by
      rw [visit_append hup, visit_entry] at hv
      cases hs : Table.get? s es <;> rw [hs] at hv <;> cases hv
      rfl
    subst hmissing
    dsimp only
    rw [place_in (by rw [parent_concat]; exact hup)]
    cases hlocked : a.locked with
    | true =>
      have hat : t.lockedAt? (p ++ [s]) = some (p ++ [s]) :=
        lockedAt?_eq_some.mpr ⟨p, s, [], es, a, rfl, rfl, hup, hlocked, hv⟩
      refine .barred ?_
      rw [bars?, barsFile_of_missing (List.append_ne_nil_of_right_ne_nil _ (List.cons_ne_nil _ _)) hv, hv, hat]
      rfl
    | false =>
      rw [if_neg Bool.false_ne_true]
      dsimp only
      rw [put_put]
      exact .written (free_concat hup hlocked hv).bars? hreached

/-- A file is opened in a directory that was just made, unless its name is too long. -/
theorem stored_made {s : Text} (free : t.Free l) (reached : (t.put l empty).barrier? n l = none) :
    Stored n t (l ++ [s]) octets
      (match (t.put l empty).openFile n (l ++ [s]) with
        | .ok t' => (none, t'.put (l ++ [s]) (file octets))
        | .error o => (some (o, l ++ [s]), t.put l empty)) := by
  have hbarrier := barrier?_put_empty (s := s) reached
  cases hlong : Limits.exceeds n s with
  | true =>
    rw [hlong, if_pos rfl] at hbarrier
    have hopen : (t.put l empty).openFile n (l ++ [s]) = .error .tooLong := by
      rw [openFile, walk, hbarrier]
    rw [hopen]
    exact .cut free.append.bars? rfl hlong free hbarrier
  | false =>
    rw [hlong, if_neg Bool.false_ne_true] at hbarrier
    have hopen : (t.put l empty).openFile n (l ++ [s]) = .ok (t.put (l ++ [s]) (file .empty)) := by
      rw [openFile, walk_eq_visit hbarrier, visit_below_put_empty]
      exact place_put_empty free s _
    rw [hopen]
    dsimp only
    rw [put_put]
    exact .written free.append.bars? (barrier?_put_below free reached hlong _)

/-- A file is not written where its directory cannot be made. -/
theorem Making.stored {s : Text} {b : Obstacle × Location} (h : Making n t l (some b, t')) :
    Stored n t (l ++ [s]) octets (some b, t') := by
  cases h with
  | barred bars =>
    refine .barred ?_
    rw [bars?, barsFile, parent_concat, bars]
  | locked at_ =>
    obtain ⟨hat, hv⟩ := lockedAt?_append (m := [s]) at_
    refine .barred ?_
    rw [bars?, barsFile_of_missing (List.append_ne_nil_of_right_ne_nil _ (List.cons_ne_nil _ _)) hv, hv, hat]
    rfl
  | @cut q s' r way long free reached =>
    subst way
    have hway : q ++ s' :: r ++ [s] = q ++ s' :: (r ++ [s]) := by
      rw [List.append_assoc, List.cons_append]
    refine .cut (r := r ++ [s]) ?_ hway long free ?_
    · rw [hway]
      exact free.append.bars?
    · rw [barrier?_append_of_error (visit_below_put_empty t q s' r)]
      exact reached

/-- **A file is written, or it is barred and the tree is as it was, or a name on the way is too long and
directories have been made down to it.** -/
theorem stored (h : t.barrier? n l = none) (octets : ByteArray) :
    Stored n t l octets (t.store n l octets) := by
  obtain rfl | ⟨p, s, rfl⟩ := List.eq_nil_or_concat' l
  · cases t with
    | directory es a => exact stored_found h rfl
    | file b r => exact .barred rfl
  have hmaking : Making n t p (t.makeDirectories n p) := by
    have habove : t.barrier? n p.reverse.reverse = none := by
      rw [List.reverse_reverse]
      exact barrier?_above h
    have hup := making p.reverse habove
    rwa [List.reverse_reverse] at hup
  rw [store, parent_concat]
  generalize t.makeDirectories n p = made at hmaking ⊢
  obtain ⟨_ | b, t'⟩ := made
  · cases hmaking with
    | found there => exact stored_found h (by rw [parent_concat]; exact there)
    | made free reached => exact stored_made free reached
  · exact hmaking.stored

/-- Whatever the writing of a file comes to, the tree is extended. -/
theorem Stored.extends {b : Option (Obstacle × Location)} (h : Stored n t l octets (b, t')) :
    Extends t t' := by
  cases h with
  | written clear reached => exact extends_put_file clear octets
  | barred bars => exact .refl t
  | cut clear way long free reached => exact extends_put_empty free

/-- A file that is not written leaves all files as they are. -/
theorem Stored.contents {b : Obstacle × Location} (h : Stored n t l octets (some b, t')) {o : ByteArray} :
    t'.contents m = .ok o ↔ t.contents m = .ok o := by
  cases h with
  | barred bars => exact Iff.rfl
  | cut clear way long free reached => exact contents_put_empty free

end Graft.Tree

