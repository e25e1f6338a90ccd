import Graft.Proofs.Script.ImportWalk
import Graft.Proofs.Script.Property

/-
What does not depend on where tokens stand.

* `entries_map` — the entries of a list;
* `importsFrom_bare`, `binds_bare` — **what statements say, and the names that they bind**;
* `descriptor?_map`, `list?_map` — **the descriptor, and the entries of its lists**;
* `roster ts key`, `lists_iff` — the entries of a list of the first descriptor, and what they name.
-/
namespace Graft.Script

/-! ### Entries -/

section
variable {f : Token → Token} (hf : Moves f)

include hf

theorem parts_map (d : Int) (ts : List Token) :
    parts d (ts.map f) = (parts d ts).map (List.map f) := by
  have hshift (d : Int) (t : Token) : shift d (f t) = shift d t := hf.congr (fun _ => rfl) t
  induction ts generalizing d with
  | nil => rfl
  | cons t ts ih =>
    rw [List.map_cons]
    by_cases hk : d = 0 ∧ t.isMark ',' = true
    · obtain ⟨rfl, hk⟩ := hk
      rw [parts_comma hk, parts_comma (t := f t) (by rwa [hf.isMark]), ih]
      rfl
    · obtain ⟨p, q, hts⟩ := List.exists_cons_of_ne_nil (parts_ne_nil (shift d t) ts)
      have hmoved : parts (shift d (f t)) (ts.map f) = p.map f :: q.map (List.map f) := by
        rw [hshift, ih, hts]
        rfl
      rw [parts_cons hk hts, parts_cons (t := f t) (by rwa [hf.isMark]) hmoved]
      rfl

theorem entries_map (ts : List Token) : entries (ts.map f) = (entries ts).map (List.map f) := by
  rw [entries_eq, entries_eq, parts_map hf, List.filter_map]
  congr 2
  funext e
  cases e <;> rfl

end

/-! ### Statements -/

theorem entryName?_bare (e : List Token) : entryName? (e.map Token.bare) = entryName? e := by
  rw [entryName?, entryName?, List.filter_map, List.map_map]
  rfl

theorem listedNames_bare (ts : List Token) : listedNames (ts.map Token.bare) = listedNames ts := by
  rw [listedNames, listedNames, entries_map moves_bare, List.filterMap_map]
  congr 1
  exact funext fun e => entryName?_bare e

theorem listedNames_congr {ts ts' : List Token} (h : ts.map Token.bare = ts'.map Token.bare) :
    listedNames ts = listedNames ts' := by
  rw [← listedNames_bare, h, listedNames_bare]

/-- A statement without its span. -/
def Import.bare (s : Import) : Import := { s with start := 0, stop := 0 }

theorem closeImport_fst_bare (start : Nat) (names : List Text) (t : Token) (ts : List Token) :
    (closeImport start names t ts).1.bare = ⟨0, 0, names, t.unquoted, t.text.headD '\''⟩ := by
  obtain ⟨stop, h⟩ := exists_closeImport_eq start names t ts
  rw [h]
  rfl

theorem closeImport_snd_bare (start start' : Nat) (names : List Text) (t : Token) (ts : List Token) :
    (closeImport start' names t.bare (ts.map Token.bare)).2 =
      (closeImport start names t ts).2.map Token.bare := by
  rcases closeImport_cases start names t ts with ⟨s, rest, rfl, hs, h⟩ | ⟨hother, h⟩
  · rw [h, List.map_cons, closeImport_semicolon (s := s.bare) hs]
  · rw [h, closeImport_other]
    intro s hs
    rw [List.head?_map] at hs
    obtain ⟨u, hu, rfl⟩ := Option.map_eq_some_iff.mp hs
    exact hother u hu

theorem readImport_bare (start start' : Nat) (names : List Text) (ts : List Token) :
    (readImport start' names (ts.map Token.bare)).1.map Import.bare =
        (readImport start names ts).1.map Import.bare ∧
      (readImport start' names (ts.map Token.bare)).2 =
        (readImport start names ts).2.map Token.bare := by
  fun_induction readImport start names ts with
  | case1 =>
    rw [List.map_nil, readImport]
    exact ⟨rfl, rfl⟩
  | case2 names t ts hk =>
    rw [List.map_cons, readImport_string (t := t.bare) hk]
    refine ⟨?_, closeImport_snd_bare start start' names t ts⟩
    show some _ = some _
    rw [closeImport_fst_bare, closeImport_fst_bare]
    rfl
  | case3 names t ts hk ih =>
    rw [List.map_cons, readImport_ident (t := t.bare) hk]
    exact ih
  | case4 names t ts hk =>
    rw [List.map_cons, readImport_template (t := t.bare) hk]
    exact ⟨rfl, rfl⟩
  | case5 names t ts hk hm hg =>
    have hg' : enclosed? (t.bare :: ts.map Token.bare) = none := by
      rw [← List.map_cons, enclosed?_map moves_bare, hg]
      rfl
    rw [List.map_cons, readImport_lone (t := t.bare) hm hg']
    exact ⟨rfl, rfl⟩
  | case6 names t ts hk hm g hg ih =>
    have hg' : enclosed? (t.bare :: ts.map Token.bare) = some (g.map Token.bare) := by
      rw [← List.map_cons, enclosed?_map moves_bare, hg]
      rfl
    have hlisted : listedNames (g.map Token.bare).inside = listedNames g.inside :=
      listedNames_bare g.inside
    rw [List.map_cons, readImport_group (t := t.bare) hm hg', hlisted]
    exact ih
  | case7 names t ts hk hm hs ih =>
    rw [List.map_cons, readImport_mark (t := t.bare) hk hm, moves_bare.isMark, moves_bare.isMark,
      if_pos hs]
    exact ih
  | case8 names t ts hk hm hs =>
    rw [List.map_cons, readImport_mark (t := t.bare) hk hm, moves_bare.isMark, moves_bare.isMark,
      if_neg hs]
    exact ⟨rfl, rfl⟩

/-- **What statements say does not depend on offsets.** -/
theorem importsFrom_bare (d : Nat) (ts : List Token) :
    (importsFrom d (ts.map Token.bare)).map Import.bare = (importsFrom d ts).map Import.bare := by
  fun_induction importsFrom d ts with
  | case1 => rw [List.map_nil, importsFrom]
  | case2 d t ts ho ih =>
    rw [List.map_cons, importsFrom_opens (t := t.bare) ho]
    exact ih
  | case3 d t ts ho hcl ih =>
    rw [List.map_cons, importsFrom_closes (t := t.bare) hcl]
    exact ih
  | case4 d t ho hcl hd => exact congrArg (List.map _) (importsFrom_singleton d t.bare)
  | case5 d t ho hcl hd f rest hf ih =>
    rw [Bool.and_eq_true, decide_eq_true_eq] at hd
    obtain ⟨rfl, hd⟩ := hd
    rw [List.map_cons, List.map_cons, importsFrom_call (t := t.bare) (f := f.bare) hd hf]
    exact ih
  | case6 d t ho hcl hd f rest hf r ih =>
    rw [Bool.and_eq_true, decide_eq_true_eq] at hd
    obtain ⟨rfl, hd⟩ := hd
    obtain ⟨hread, hleft⟩ := readImport_bare t.start t.bare.start [] (f :: rest)
    rw [List.map_cons] at hread hleft
    rw [List.map_cons, List.map_cons, importsFrom_import (t := t.bare) (f := f.bare) hd hf,
      List.map_append, List.map_append, hleft, ih]
    congr 1
    rw [← Option.toList_map, hread, Option.toList_map]
  | case7 d t ts ho hcl hd ih =>
    have hd' : ¬ (d = 0 ∧ t.bare.isWord "import".toList = true) := by
      rwa [Bool.and_eq_true, decide_eq_true_eq] at hd
    rw [List.map_cons, importsFrom_plain (t := t.bare) ho hcl hd']
    exact ih

/-- Whether there are statements does not depend on where tokens stand. -/
theorem importsFrom_eq_nil {d : Nat} {ts ts' : List Token}
    (hts : ts'.map Token.bare = ts.map Token.bare) (h : importsFrom d ts = []) :
    importsFrom d ts' = [] := by
  have hbare := importsFrom_bare d ts'
  rw [hts, importsFrom_bare, h, List.map_nil, eq_comm, List.map_eq_nil_iff] at hbare
  exact hbare

/-- **The names that statements bind do not depend on offsets.** -/
theorem binds_bare {ts : List Token} {name : Text} : Binds (ts.map Token.bare) name ↔ Binds ts name := by
  have hbare (ts : List Token) : Binds ts name ↔ ∃ s ∈ (imports ts).map Import.bare, name ∈ s.names := by
    simp [Binds, Import.bare]
  rw [hbare, hbare, imports, importsFrom_bare]
  rfl

/-! ### Descriptors -/

/-- A descriptor with the offsets of its tokens changed. -/
def Descriptor.map (f : Token → Token) (d : Descriptor) : Descriptor :=
  ⟨d.decorator, f d.opening, d.inside.map f, f d.closing⟩

theorem entryKey?_bare (e : List Token) : entryKey? (e.map Token.bare) = entryKey? e := by
  rcases e with _ | ⟨k, _ | ⟨m, tail⟩⟩ <;> rfl

section
variable {f : Token → Token} (hf : Moves f)

include hf

theorem Decorates.map {d : Descriptor} {a name p : Token} (h : Decorates d a name p) :
    Decorates (d.map f) (f a) (f name) (f p) where
  mark := (hf.isMark _ a).trans h.mark
  name := (hf.congr (fun _ => rfl) name).trans h.name
  paren := (hf.isMark _ p).trans h.paren
  brace := (hf.isMark _ d.opening).trans h.brace
  nested := (settle_map hf [] d.inside).trans h.nested
  closing := (hf.isMark _ d.closing).trans h.closing

theorem headed?_map (ts : List Token) :
    headed? (ts.map f) = (headed? ts).map (Descriptor.map f) := by
  rcases ts with _ | ⟨a, _ | ⟨name, _ | ⟨p, _ | ⟨brace, rest⟩⟩⟩⟩
  · rfl
  · rfl
  · rfl
  · rfl
  · have hgroup := enclosed?_map hf (brace :: rest)
    have hdeco : Decorator.ofToken? (f name) = Decorator.ofToken? name :=
      hf.congr (fun _ => rfl) name
    rw [List.map_cons] at hgroup
    rw [List.map_cons, List.map_cons, List.map_cons, List.map_cons, headed?_cons, headed?_cons,
      hgroup, hdeco, hf.isMark, hf.isMark, hf.isMark]
    split
    · cases Decorator.ofToken? name with
      | none => rfl
      | some deco => cases enclosed? (brace :: rest) <;> rfl
    · rfl

/-- **The descriptor does not depend on where tokens stand.** -/
theorem descriptor?_map (ts : List Token) :
    descriptor? (ts.map f) = (descriptor? ts).map (Descriptor.map f) := by
  induction ts with
  | nil => rfl
  | cons t ts ih =>
    rw [List.map_cons, descriptor?_cons, descriptor?_cons, ih, ← List.map_cons, headed?_map hf]
    cases headed? (t :: ts) <;> rfl

theorem property?_map (d : Descriptor) (key : Text) :
    (d.map f).property? key = (d.property? key).map (List.map f) := by
  have hentries : entries (d.map f).inside = (entries d.inside).map (List.map f) :=
    entries_map hf d.inside
  rw [Descriptor.property?, Descriptor.property?, hentries, ← List.map_reverse, List.find?_map]
  congr 2
  funext e
  show (entryKey? (e.map f) == some key) = (entryKey? e == some key)
  rw [← entryKey?_bare, hf.map_bare, entryKey?_bare]

/-- **Nor do the entries of its lists.** -/
theorem list?_map (d : Descriptor) (key : Text) :
    (d.map f).list? key = (d.list? key).map (List.map (List.map f)) := by
  rw [Descriptor.list?, Descriptor.list?, property?_map hf]
  cases d.property? key with
  | none =>
    show (if d.decorator = .ngModule then some [] else none) = _
    split <;> rfl
  | some e =>
    simp only [Option.map_some, ← List.map_drop]
    cases e.drop 2 with
    | nil => rfl
    | cons o rest =>
      simp only [List.map_cons, hf.isMark]
      split
      · rw [← List.map_cons, enclosed?_map hf, Option.map_map, Option.map_map]
        congr 1
        exact funext fun g => entries_map hf g.inside
      · rfl

end

/-- Which decorators begin before some tokens does not depend on where they stand. -/
theorem Unheaded.congr {L L' R R' : List Token} (h : Unheaded L R)
    (hL : L'.map Token.bare = L.map Token.bare) (hR : R'.map Token.bare = R.map Token.bare) :
    Unheaded L' R' := by
  induction L generalizing L' with
  | nil =>
    rw [List.map_nil, List.map_eq_nil_iff] at hL
    rw [hL]
    trivial
  | cons t L ih =>
    rw [List.map_cons, List.map_eq_cons_iff] at hL
    obtain ⟨t', L', rfl, ht, hL⟩ := hL
    refine ⟨?_, ih h.2 hL⟩
    have hbare : (t' :: (L' ++ R')).map Token.bare = (t :: (L ++ R)).map Token.bare := by
      rw [List.map_cons, List.map_cons, List.map_append, List.map_append, ht, hL, hR]
    have hsame := congrArg headed? hbare
    rw [headed?_map moves_bare, headed?_map moves_bare, h.1, Option.map_none,
      Option.map_eq_none_iff] at hsame
    exact hsame

/-- The entries of the list under a key of the first descriptor, without offsets. -/
def roster (ts : List Token) (key : Text) : Option (List (List Token)) :=
  (descriptor? (ts.map Token.bare)).bind fun d => d.list? key

theorem roster_eq {ts : List Token} {d : Descriptor} (h : descriptor? ts = some d) (key : Text) :
    roster ts key = (d.list? key).map (List.map (List.map Token.bare)) := by
  rw [roster, descriptor?_map moves_bare, h, ← list?_map moves_bare]
  rfl

theorem exists_of_roster {ts : List Token} {key : Text} {P : List (List Token)}
    (h : roster ts key = some P) : ∃ d E, descriptor? ts = some d ∧ d.list? key = some E ∧
      E.map (List.map Token.bare) = P := by
  cases hd : descriptor? ts with
  | none =>
    rw [roster, descriptor?_map moves_bare, hd] at h
    cases h
  | some d =>
    rw [roster_eq hd, Option.map_eq_some_iff] at h
    obtain ⟨E, hE, hP⟩ := h
    exact ⟨d, E, rfl, hE, hP⟩

theorem leads_bare {name : Text} {e : List Token} : Leads name (e.map Token.bare) ↔ Leads name e := by
  rw [Leads, Leads, List.head?_map]
  cases e.head? with
  | none => simp
  | some t => simp [Token.isWord, Token.bare]

/-- What the list under a key names are the words that the entries of the roster begin with. -/
theorem lists_iff {ts : List Token} {key name : Text} :
    Lists ts key name ↔ ∃ E, roster ts key = some E ∧ ∃ e ∈ E, Leads name e := by
  constructor
  · rintro ⟨d, hd, hlists⟩
    obtain ⟨E, hE, e, he, hleads⟩ := Descriptor.lists_iff.mp hlists
    refine ⟨_, by rw [roster_eq hd, hE]; rfl, e.map Token.bare, List.mem_map_of_mem he, ?_⟩
    exact leads_bare.mpr hleads
  · rintro ⟨P, hP, e', he', hleads⟩
    obtain ⟨d, E, hd, hE, rfl⟩ := exists_of_roster hP
    obtain ⟨e, he, rfl⟩ := List.mem_map.mp he'
    exact ⟨d, hd, Descriptor.lists_iff.mpr ⟨E, hE, e, he, leads_bare.mp hleads⟩⟩

/-- **What the lists of the descriptor name does not depend on offsets.** -/
theorem lists_bare {ts : List Token} {key name : Text} :
    Lists (ts.map Token.bare) key name ↔ Lists ts key name := by
  rw [lists_iff, lists_iff, roster, roster, moves_bare.map_bare]

end Graft.Script
