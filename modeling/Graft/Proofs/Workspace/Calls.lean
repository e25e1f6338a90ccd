import Graft.Proofs.Workspace.Faults
import Graft.Proofs.Workspace.Files
import Graft.Proofs.Workspace.Spellings
import Graft.Workspace.Calls

/-
A workspace as a store of texts.

* `WroteWide w path content` — what a write comes to whose content need not be a text;
* `perform_writes` — a call writes what its record says;
* `after_writes` — calls write what their history says;
* `read_after_iff`, `exists?_after_iff` — what is read after them, and where there is a file;
* `Faithful w calls` — what a store owes to who has made these calls on it;
* `faithful` — **a workspace is a faithful store, whatever calls were made on it**;
* `unfaithful_lengthy` — a write that fails for the length of a name leaves a directory behind, and one
  that fails for its content leaves an empty file.

Design notes: the history of calls is a run of writes, so what the workspace holds after them is read
off the last write at each location.
-/
namespace Graft.Workspace

variable {w : Workspace} {c : Call} {calls : List Call} {path t : Text} {l : Location}

/-! ### One call -/

/-- What a write comes to whose content need not be a text. -/
inductive WroteWide (w : Workspace) (path : Text) (content : Wide) :
    Except Error Bool × Workspace → Prop
  | text {t : Text} {new : Bool} {w' : Workspace} (text : content.toText = .ok t)
      (wrote : w.write path t = (.ok new, w')) : WroteWide w path content (.ok new, w')
  | emptied {u : Unencodable} {new : Bool} {w' : Workspace} (unencodable : content.toText = .error u)
      (wrote : w.write path [] = (.ok new, w')) :
      WroteWide w path content (.error (.fault (.unencodable u)), w')
  | missed {t : Text} {e : Error} {w' : Workspace} (missed : w.write path t = (.error e, w')) :
      WroteWide w path content (.error e, w')

theorem wroteWide (w : Workspace) (path : Text) (content : Wide) :
    WroteWide w path content (w.writeWide path content) := by
  rw [writeWide]
  cases htext : content.toText with
  | ok t =>
    dsimp only
    cases hw : w.write path t with
    | mk r w' =>
      cases r with
      | ok new => exact .text htext hw
      | error e => exact .missed hw
  | error u =>
    dsimp only
    cases hw : w.write path [] with
    | mk r w' =>
      cases r with
      | ok new => exact .emptied htext hw
      | error e => exact .missed hw

/-- No write of a text finds a surrogate in it. -/
theorem write_ne_unencodable (w : Workspace) (path t : Text) (u : Unencodable) :
    (w.write path t).1 ≠ .error (.fault (.unencodable u)) := by
  intro h
  rcases write_fault_iff.mp h with ⟨-, hf⟩ | ⟨l, o, -, -, hf⟩ <;> cases hf

/-- A call writes what its record says, and nothing else. -/
theorem perform_writes (w : Workspace) (c : Call) : Writes w (w.record c) (w.perform c).2 := by
  cases c with
  | read path => exact .done w
  | exists? path => exact .done w
  | write path content =>
    have hw := wroteWide w path content
    rw [record, answer, perform]
    generalize w.writeWide path content = r at hw ⊢
    cases hw with
    | @text t new w' text wrote =>
      obtain ⟨l, hl, -, -⟩ := wrote_of_ok wrote
      have hleaves : leaves content ((Except.ok new : Except Error Bool).map .wrote) = some t := by
        rw [Except.map, leaves, text]
        rfl
      rw [hl, hleaves]
      exact .step wrote hl (.done _)
    | @emptied u new w' unencodable wrote =>
      obtain ⟨l, hl, -, -⟩ := wrote_of_ok wrote
      have hleaves : leaves content ((Except.error (.fault (.unencodable u)) : Except Error Bool).map
          .wrote) = some [] := rfl
      rw [hl, hleaves]
      exact .step wrote hl (.done _)
    | @missed t e w' missed =>
      have hleaves : leaves content ((Except.error e : Except Error Bool).map .wrote) = none := by
        cases e with
        | path e => rfl
        | fault f =>
          cases f with
          | unencodable u => exact absurd (congrArg Prod.fst missed) (write_ne_unencodable _ _ _ _)
          | _ => rfl
      rw [hleaves]
      refine .missed missed ?_
      cases w.locate path <;> exact .done _

theorem answer_write_ok {content : Wide} {new : Bool}
    (h : w.answer (.write path content) = .ok (.wrote new)) : ∃ t, content.toText = .ok t ∧
      w.write path t = (.ok new, (w.perform (.write path content)).2) := by
  have hw := wroteWide w path content
  rw [answer, perform] at h
  rw [perform]
  generalize w.writeWide path content = r at hw h ⊢
  cases hw with
  | text text wrote =>
    cases h
    exact ⟨_, text, wrote⟩
  | emptied => cases h
  | missed => cases h

/-- What a write that fails comes to: it has emptied its file, or is no more than a write of a text that
fails. -/
theorem answer_write_error {content : Wide} {e : Error}
    (h : w.answer (.write path content) = .error e) :
    (∃ u, e = .fault (.unencodable u) ∧ content.toText = .error u) ∨
      ∃ t, w.write path t = (.error e, (w.perform (.write path content)).2) := by
  have hw := wroteWide w path content
  rw [answer, perform] at h
  rw [perform]
  generalize w.writeWide path content = r at hw h ⊢
  cases hw with
  | text => cases h
  | emptied unencodable wrote =>
    cases h
    exact .inl ⟨_, rfl, unencodable⟩
  | missed missed =>
    cases h
    exact .inr ⟨_, missed⟩

/-! ### Calls one after another -/

theorem after_concat (w : Workspace) (calls : List Call) (c : Call) :
    w.after (calls ++ [c]) = ((w.after calls).perform c).2 := by
  rw [after, List.foldl_append]
  rfl

/-- Calls write what their history says. -/
theorem after_writes (w : Workspace) (calls : List Call) :
    Writes w (w.history calls) (w.after calls) := by
  induction calls generalizing w with
  | nil => exact .done w
  | cons c calls ih => exact (perform_writes w c).trans (ih _)

theorem locate_after (w : Workspace) (calls : List Call) (path : Text) :
    (w.after calls).locate path = w.locate path := by
  exact (after_writes w calls).locate_eq

theorem answer_read_eq_ok : w.answer (.read path) = .ok (.text t) ↔ w.read path = .ok t := by
  rw [answer, perform]
  cases w.read path with
  | error e => exact ⟨fun h => (by cases h), fun h => by cases h⟩
  | ok t' => simp [Except.map]

theorem answer_exists_eq_true :
    w.answer (.exists? path) = .ok (.found true) ↔ w.exists? path = .ok true := by
  rw [answer, perform]
  cases w.exists? path <;> simp [Except.map, Except.mapError]

/-- The answer to a call whose path cannot be used: it is told what is wrong with it, and one that
asks whether there is a file is told that there is none. -/
def refusal (e : PathError) : Call → Except Error Answer
  | .exists? _ => .ok (.found false)
  | _ => .error (.path e)

theorem perform_refused {e : PathError} (h : w.locate c.path = .error (.path e)) :
    w.perform c = (refusal e c, w) := by
  cases c with
  | write path t =>
    have hl : w.locate path = .error (.path e) := h
    have hwrite (t : Text) : w.write path t = (.error (.path e), w) := by rw [write, hl]
    rw [perform, writeWide]
    cases t.toText <;> simp only [hwrite] <;> rfl
  | read path =>
    have hl : w.locate path = .error (.path e) := h
    rw [perform, read, hl]
    rfl
  | exists? path =>
    have hl : w.locate path = .error (.path e) := h
    rw [perform, exists?, hl]
    rfl

/-- What is read after calls is what was written last, or what was there from the beginning. -/
theorem read_after_iff (w : Workspace) (calls : List Call) (path t : Text) :
    (w.after calls).read path = .ok t ↔ ∃ l, w.locate path = .ok l ∧
      (latest l (w.history calls) = some t ∨
        latest l (w.history calls) = none ∧ w.read path = .ok t) := by
  have hrun := after_writes w calls
  simp only [read_eq_ok_held, locate_after, hrun.held_eq]
  constructor
  · rintro ⟨l, octets, hl, hreached, hheld, hd⟩
    refine ⟨l, hl, ?_⟩
    cases hlatest : latest l (w.history calls) with
    | some t' =>
      rw [hlatest] at hheld
      rw [← Option.some.inj hheld, Utf8.decode_encode] at hd
      exact Or.inl (congrArg some (Except.ok.inj hd))
    | none =>
      rw [hlatest] at hheld
      rw [hrun.later.reached (held_eq_some.mp hheld)] at hreached
      exact Or.inr ⟨rfl, l, octets, hl, hreached, hheld, hd⟩
  · rintro ⟨l, hl, hlatest | ⟨hnone, l', octets, hl', hreached, hheld, hd⟩⟩
    · refine ⟨l, _, hl, hrun.reached (mem_of_latest hlatest), ?_, Utf8.decode_encode t⟩
      rw [hlatest]
      rfl
    · obtain rfl := Except.ok.inj (hl.symm.trans hl')
      refine ⟨l, octets, hl, ?_, by rw [hnone]; exact hheld, hd⟩
      rw [hrun.later.reached (held_eq_some.mp hheld), hreached]

/-- After calls there is a file where one was written or was from the beginning. -/
theorem exists?_after_iff (w : Workspace) (calls : List Call) (path : Text) :
    (w.after calls).exists? path = .ok true ↔ ∃ l, w.locate path = .ok l ∧
      ((latest l (w.history calls)).isSome ∨ w.exists? path = .ok true) := by
  have hrun := after_writes w calls
  simp only [exists?_eq_true, locate_after]
  constructor
  · rintro ⟨l, hl, hreached, hheld⟩
    refine ⟨l, hl, ?_⟩
    cases hlatest : latest l (w.history calls) with
    | some t => exact Or.inl rfl
    | none =>
      rw [hrun.held_eq, hlatest] at hheld
      obtain ⟨octets, hoctets⟩ := Option.isSome_iff_exists.mp hheld
      rw [hrun.later.reached (held_eq_some.mp hoctets)] at hreached
      exact Or.inr ⟨l, hl, hreached, hheld⟩
  · rintro ⟨l, hl, hlatest | ⟨l', hl', hreached, hheld⟩⟩
    · obtain ⟨t, ht⟩ := Option.isSome_iff_exists.mp hlatest
      refine ⟨l, hl, hrun.reached (mem_of_latest ht), ?_⟩
      rw [hrun.held_eq, ht]
      rfl
    · obtain ⟨octets, hoctets⟩ := Option.isSome_iff_exists.mp hheld
      refine ⟨l', hl', ?_, hrun.later.held_isSome hheld⟩
      rw [hrun.later.reached (held_eq_some.mp hoctets), hreached]

/-! ### What a store owes -/

/-- What a store owes to who has made these calls on it. -/
structure Faithful (w : Workspace) (calls : List Call) : Prop where
  -- Spellings address one location exactly when they lead to one place from the root.
  same {p q : Text} (hp : '\x00' ∉ p) (hq : '\x00' ∉ q) (taken : ¬ Refused w.root p)
    (taken' : ¬ Refused w.root q) : (w.after calls).locate p = (w.after calls).locate q ↔
      w.root.walk (segments p) = w.root.walk (segments q)
  refused {p : Text} (hp : '\x00' ∉ p) :
    (∃ problem, (w.after calls).locate p = .error (.path ⟨p, problem⟩)) ↔ Refused w.root p
  -- What is refused is refused by every call, and no call acts on it.
  barred {c : Call} (hc : '\x00' ∉ c.path) (refused : Refused w.root c.path) :
    ∃ problem, (w.after calls).perform c = (refusal ⟨c.path, problem⟩ c, w.after calls)
  -- What is read is what was written last, or what was there from the beginning.
  read {p t : Text} : (w.after calls).answer (.read p) = .ok (.text t) ↔
    ∃ l, w.locate p = .ok l ∧ (latest l (w.history calls) = some t ∨
      latest l (w.history calls) = none ∧ w.answer (.read p) = .ok (.text t))
  found {p : Text} : (w.after calls).answer (.exists? p) = .ok (.found true) ↔
    ∃ l, w.locate p = .ok l ∧ ((latest l (w.history calls)).isSome ∨
      w.answer (.exists? p) = .ok (.found true))
  -- A write tells whether there was neither a file nor a directory.
  new {p : Text} {content : Wide} {new : Bool}
    (wrote : (w.after calls).answer (.write p content) = .ok (.wrote new)) :
    ∃ l, w.locate p = .ok l ∧ (new = true ↔ ∀ x, (w.after calls).disk.visit l ≠ .ok x)
  -- Only what is no text keeps a write from ending that has got as far as its file.
  wide {p : Text} {content : Wide} {u : Unencodable}
    (failed : (w.after calls).answer (.write p content) = .error (.fault (.unencodable u))) :
    content.toText = .error u
  -- Any other write that fails leaves all files as they are.
  kept {p : Text} {content : Wide} {e : Error}
    (failed : (w.after calls).answer (.write p content) = .error e)
    (encodable : ∀ u, e ≠ .fault (.unencodable u)) (l : Location) :
    (w.after (calls ++ [.write p content])).held l = (w.after calls).held l
  -- It leaves everything as it is, unless a name is too long; then there may be directories down to it.
  unchanged {p : Text} {content : Wide} {e : Error}
    (failed : (w.after calls).answer (.write p content) = .error e)
    (encodable : ∀ u, e ≠ .fault (.unencodable u)) :
    w.after (calls ++ [.write p content]) = w.after calls ∨ ∃ q s r place,
      w.locate p = .ok (q ++ s :: r) ∧ Limits.exceeds w.limits.name s = true ∧
        e = .path ⟨p, .unwritten ⟨.tooLong, place⟩⟩ ∧
          (w.after calls).disk.visit q = .error .missing ∧
            w.after (calls ++ [.write p content]) =
              { w.after calls with disk := (w.after calls).disk.put q .empty }

/-- **A workspace is a faithful store, whatever calls were made on it.** -/
theorem faithful (hroot : w.root.Resolved) (calls : List Call) : Faithful w calls where
  same hp hq taken taken' := by
    rw [locate_after, locate_after]
    exact locateFrom_same_iff hroot hp hq taken taken'
  refused hp := by
    rw [locate_after]
    exact locateFrom_error_iff hroot hp
  barred hc refused := by
    obtain ⟨problem, he⟩ := (locateFrom_error_iff hroot hc).mpr refused
    exact ⟨problem, perform_refused ((locate_after w calls _).trans he)⟩
  read := by
    intro p t
    simp only [answer_read_eq_ok]
    exact read_after_iff w calls p t
  found := by
    intro p
    simp only [answer_exists_eq_true]
    exact exists?_after_iff w calls p
  new := by
    intro p content new wrote
    obtain ⟨t, -, hwrite⟩ := answer_write_ok wrote
    obtain ⟨l, hl, -, rfl⟩ := wrote_of_ok hwrite
    refine ⟨l, (locate_after w calls p).symm.trans hl, ?_⟩
    rw [Tree.exists?]
    cases (w.after calls).disk.visit l <;> simp [Except.toBool]
  wide failed := by
    rcases answer_write_error failed with ⟨u, hu, hwide⟩ | ⟨t, ht⟩
    · cases hu
      exact hwide
    · exact absurd (congrArg Prod.fst ht) (write_ne_unencodable _ _ _ _)
  kept failed encodable l := by
    rcases answer_write_error failed with ⟨u, hu, -⟩ | ⟨t, ht⟩
    · exact absurd hu (encodable u)
    · rw [after_concat]
      exact held_of_error ht l
  unchanged := by
    intro p content e failed encodable
    rcases answer_write_error failed with ⟨u, hu, -⟩ | ⟨t, ht⟩
    · exact absurd hu (encodable u)
    · rw [after_concat]
      rcases eq_or_cut_of_error ht with heq | ⟨q, s, r, place, hl, hlong, hfree, heq, he⟩
      · exact .inl heq
      · refine .inr ⟨q, s, r, place, (locate_after w calls p).symm.trans hl, ?_, he, hfree.1, heq⟩
        rwa [(after_writes w calls).later.limits] at hlong

/-- Two writes to one place under two spellings, and between them one that a directory bars. -/
def winding : List Call :=
  [.write "a/b".toList (Text.wide "x".toList), .write "a".toList (Text.wide "y".toList),
    .write ".\\a//c/../b".toList (Text.wide "z\r\n".toList)]

theorem faithful_winding : vacant.root.Resolved ∧ Faithful vacant winding ∧
    (vacant.after winding).answer (.read "a/./b".toList) = .ok (.text "z\r\n".toList) := by
  have hstore := faithful vacant_resolved winding
  refine ⟨vacant_resolved, hstore, hstore.read.mpr ⟨["ws".toList, "a".toList, "b".toList], ?_, ?_⟩⟩
  · rfl
  · exact Or.inl (by decide +kernel)

/-- A name that is too long for a machine of the usual kind. -/
def lengthy : Text := List.replicate 300 'n'

/-- A write that fails for the length of a name leaves a directory behind, and one that fails for its
content leaves an empty file. -/
theorem unfaithful_lengthy :
    let cut : Call := .write ("new/".toList ++ lengthy) (Text.wide "x".toList)
    let spoiled : Call := .write "a".toList [.surrogate 0]
    let wrote := vacant.after [.write "a".toList (Text.wide "x".toList)]
    (∃ e, vacant.answer cut = .error (.path e)) ∧
      vacant.disk.visit ["ws".toList, "new".toList] = .error .missing ∧
      (vacant.after [cut]).disk.isDirectory ["ws".toList, "new".toList] = true ∧
      wrote.answer (.read "a".toList) = .ok (.text "x".toList) ∧
      (wrote.answer spoiled).toBool = false ∧
      (wrote.after [spoiled]).answer (.read "a".toList) = .ok (.text []) := by
  refine ⟨⟨⟨"new/".toList ++ lengthy, .unwritten ⟨.tooLong, "/ws/new/".toList ++ lengthy⟩⟩, ?_⟩,
    rfl, ?_, ?_, ?_, ?_⟩ <;> decide +kernel

end Graft.Workspace
