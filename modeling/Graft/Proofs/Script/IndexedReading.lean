import Graft.Proofs.Script.ImportWalk
import Graft.Proofs.Script.Indexed
import Graft.Proofs.Script.Property

/-
Descriptors and imports by the indices of their tokens.

* `descriptorFrom ts i` — the first descriptor whose decorator begins at an index or later;
* `Denotes ts a d` — indices that stand for a descriptor;
* `exists_descriptorFrom` — **no look-up goes wrong, and the descriptor is the first among the tokens**;
* `importsAt ts depth i` — the statements from an index on;
* `importsAt_zero` — **no look-up goes wrong, and the statements are those among the tokens**.

Design notes: a reader looks up to three tokens ahead.  That these are there is settled once, where
`ts.drop i` is taken apart into the tokens that the reader of lists asks for.
-/
namespace Graft.Script

/-! ### Descriptors -/

/-- A descriptor by the indices of its braces and of its entries, each with its key if it has one. -/
structure DescriptorAt where
  decorator : Decorator
  opening : Nat
  closing : Nat
  entries : List (Option Text × Nat × Nat)

/-- The indices of the last entry under a key. -/
def DescriptorAt.property? (a : DescriptorAt) (key : Text) : Option (Nat × Nat) :=
  (a.entries.reverse.find? fun e => e.1 == some key).map Prod.snd

/-- The key of an entry, if it has one. -/
def keyAt (ts : List Token) (s : Nat × Nat) : Except Nat (Option Text) := do
  let key ← lookUp ts s.1
  if s.1 + 1 > s.2 then return none
  else
    let colon ← lookUp ts (s.1 + 1)
    if colon.isMark ':' then
      match key.kind with
      | .ident => return some key.text
      | .string => return some key.unquoted
      | _ => return none
    else return none

/-- The descriptor whose decorator begins at an index. -/
def headedAt (ts : List Token) (i : Nat) : Except Nat (Option DescriptorAt) := do
  let mark ← lookUp ts i
  if mark.isMark '@' then
    let name ← lookUp ts (i + 1)
    match Decorator.ofToken? name with
    | none => return none
    | some decorator =>
      let paren ← lookUp ts (i + 2)
      if paren.isMark '(' then
        let brace ← lookUp ts (i + 3)
        if brace.isMark '{' then
          match ← closingAt ts (i + 3) with
          | none => return none
          | some closing =>
            let spans ← spansAt ts (i + 3) closing
            let keys ← spans.mapM (keyAt ts)
            return some ⟨decorator, i + 3, closing, keys.zip spans⟩
        else return none
      else return none
  else return none

/-- The first descriptor whose decorator begins at an index or later. -/
def descriptorFrom (ts : List Token) (i : Nat) : Except Nat (Option DescriptorAt) :=
  if _h : i + 3 < ts.length then do
    match ← headedAt ts i with
    | some a => return some a
    | none => descriptorFrom ts (i + 1)
  else .ok none
termination_by ts.length - i

/-- Indices that stand for a descriptor. -/
structure Denotes (ts : List Token) (a : DescriptorAt) (d : Descriptor) : Prop where
  decorator : a.decorator = d.decorator
  tokens : ∃ after, ts.drop a.opening = d.opening :: (d.inside ++ d.closing :: after)
  closing : a.closing = a.opening + 1 + d.inside.length
  -- What is in the object is nested.
  nested : Nested d.inside
  -- The object ends with a brace.
  brace : d.closing.isMark '}' = true
  entries : ∃ spans : List (Nat × Nat), a.entries = spans.map (fun s => (entryKey? (cut ts s), s)) ∧
    spans.map (cut ts) = Script.entries d.inside ∧ ∀ s ∈ spans, IsSpan ts a.closing s

section
variable {ts : List Token} {i : Nat}

theorem keyAt_eq {close : Nat} {s : Nat × Nat} (hs : IsSpan ts close s) (hclose : close ≤ ts.length) :
    keyAt ts s = .ok (entryKey? (cut ts s)) := by
  have hle := hs.le
  have hlen := length_cut hs hclose
  have hdrop := drop_cut hs hclose
  rcases hcut : cut ts s with _ | ⟨key, _ | ⟨colon, rest⟩⟩
  · rw [hcut, List.length_nil] at hlen
    omega
  · rw [hcut, List.length_singleton] at hlen
    rw [keyAt, lookUp_first hs hclose hcut]
    exact if_pos (by omega)
  · rw [hcut, List.length_cons, List.length_cons] at hlen
    rw [hcut, List.cons_append, List.cons_append] at hdrop
    rw [keyAt, lookUp_first hs hclose hcut, lookUp_of_drop (drop_succ_of_drop hdrop)]
    show (if s.1 + 1 > s.2 then _ else if colon.isMark ':' then _ else _) = _
    rw [if_neg (by omega), entryKey?]
    by_cases hcolon : colon.isMark ':' = true
    · rw [if_pos hcolon, if_pos hcolon]
      cases key.kind <;> rfl
    · rw [if_neg hcolon, if_neg hcolon]
      rfl

/-- Four tokens are looked up at most, and the group that begins with the last of them. -/
theorem exists_headedAt {mark name paren brace : Token} {rest : List Token}
    (h : ts.drop i = mark :: name :: paren :: brace :: rest) :
    ∃ o, headedAt ts i = .ok o ∧ Option.Rel (Denotes ts) o (headed? (ts.drop i)) := by
  have hname := drop_succ_of_drop h
  have hparen := drop_succ_of_drop hname
  have hbrace := drop_succ_of_drop hparen
  rw [h, headed?_cons, headedAt, lookUp_of_drop h, ok_bind]
  by_cases hm : mark.isMark '@' = true
  swap
  · rw [if_neg hm, if_neg (by simp [hm])]
    exact ⟨none, rfl, .none⟩
  rw [if_pos hm, lookUp_of_drop hname, ok_bind]
  cases hd : Decorator.ofToken? name with
  | none =>
    refine ⟨none, rfl, ?_⟩
    simp only [Option.bind_none, ite_self]
    exact .none
  | some decorator =>
    simp only [lookUp_of_drop hparen, ok_bind]
    by_cases hp : paren.isMark '(' = true
    swap
    · rw [if_neg hp, if_neg (by simp [hp])]
      exact ⟨none, rfl, .none⟩
    rw [if_pos hp, lookUp_of_drop hbrace, ok_bind]
    by_cases hb : brace.isMark '{' = true
    swap
    · rw [if_neg hb, if_neg (by simp [hb])]
      exact ⟨none, rfl, .none⟩
    rw [if_pos hb, if_pos (by rw [hm, hp, hb]; rfl), closingAt_eq hbrace (closer?_of_brace hb),
      ok_bind]
    cases hg : enclosed? (brace :: rest) with
    | none => exact ⟨none, rfl, .none⟩
    | some g =>
      obtain ⟨c, hc, hrest, hnested, hend⟩ := enclosed?_eq_some_iff.mp hg
      obtain rfl : '}' = c := Option.some.inj ((closer?_of_brace hb).symm.trans hc)
      have hinside := drop_succ_of_drop hbrace
      rw [hrest] at hinside
      obtain ⟨spans, hspans, hmap, hall⟩ := exists_spansAt hinside
      have hlen : i + 3 + 1 + g.inside.length ≤ ts.length :=
        Nat.le_of_lt (lt_of_drop (drop_append_of_drop hinside))
      have hkeys : spans.mapM (keyAt ts) = .ok (spans.map fun s => entryKey? (cut ts s)) :=
        mapM_eq_ok fun s hs => keyAt_eq (hall s hs) hlen
      simp only [Option.map_some, hspans, ok_bind, hkeys]
      refine ⟨_, rfl, .some ⟨rfl, ⟨g.after, ?_⟩, rfl, hnested, hend, spans, ?_, hmap, hall⟩⟩
      · rw [← hrest]
        exact hbrace
      · exact List.map_prod_right_eq_zip.symm

theorem descriptor?_of_length_le {ts : List Token} (h : ts.length ≤ 3) : descriptor? ts = none := by
  rcases ts with _ | ⟨a, _ | ⟨b, _ | ⟨c, _ | ⟨d, rest⟩⟩⟩⟩
  · rfl
  · rfl
  · rfl
  · rfl
  · simp only [List.length_cons] at h
    omega

/-- **Read by index, the descriptor is the first among the tokens.** -/
theorem exists_descriptorFrom {rest : List Token} (h : ts.drop i = rest) :
    ∃ o, descriptorFrom ts i = .ok o ∧ Option.Rel (Denotes ts) o (descriptor? rest) := by
  have hlen := congrArg List.length h
  rw [List.length_drop] at hlen
  induction rest generalizing i with
  | nil =>
    rw [List.length_nil] at hlen
    rw [descriptorFrom, dif_neg (by omega)]
    exact ⟨none, rfl, .none⟩
  | cons t rest ih =>
    rw [descriptorFrom]
    by_cases hlt : i + 3 < ts.length
    · obtain ⟨name, paren, brace, more, rfl⟩ : ∃ name paren brace more,
          rest = name :: paren :: brace :: more := by
        rcases rest with _ | ⟨name, _ | ⟨paren, _ | ⟨brace, more⟩⟩⟩
        · simp only [List.length_cons, List.length_nil] at hlen
          omega
        · simp only [List.length_cons, List.length_nil] at hlen
          omega
        · simp only [List.length_cons, List.length_nil] at hlen
          omega
        · exact ⟨name, paren, brace, more, rfl⟩
      obtain ⟨o, hhead, hrel⟩ := exists_headedAt h
      rw [dif_pos hlt, hhead, ok_bind, descriptor?_cons, ← h]
      cases hd : headed? (ts.drop i) with
      | none =>
        rw [hd] at hrel
        cases hrel
        rw [List.length_cons] at hlen
        exact ih (drop_succ_of_drop h) (by omega)
      | some d =>
        rw [hd] at hrel
        cases hrel with
        | some hdenotes => exact ⟨_, rfl, .some hdenotes⟩
    · rw [dif_neg hlt, descriptor?_of_length_le (by omega)]
      exact ⟨none, rfl, .none⟩

theorem Denotes.drop_closing {a : DescriptorAt} {d : Descriptor} (h : Denotes ts a d) :
    ∃ after, ts.drop a.closing = d.closing :: after := by
  obtain ⟨after, hopening⟩ := h.tokens
  rw [h.closing]
  exact ⟨after, drop_append_of_drop (drop_succ_of_drop hopening)⟩

/-- The property under a key, and the indices of its entry. -/
theorem Denotes.property? {a : DescriptorAt} {d : Descriptor} (h : Denotes ts a d) (key : Text) :
    (d.property? key = none ∧ a.property? key = none) ∨ ∃ s, a.property? key = some s ∧
      d.property? key = some (cut ts s) ∧ IsSpan ts a.closing s := by
  obtain ⟨spans, hentries, hmap, hall⟩ := h.entries
  have hd : d.property? key =
      (spans.reverse.find? fun s => entryKey? (cut ts s) == some key).map (cut ts) := by
    rw [Descriptor.property?, ← hmap, ← List.map_reverse, List.find?_map]
    rfl
  have ha : a.property? key = spans.reverse.find? fun s => entryKey? (cut ts s) == some key := by
    rw [DescriptorAt.property?, hentries, ← List.map_reverse, List.find?_map, Option.map_map]
    exact Option.map_id_apply
  rw [ha, hd]
  cases hs : spans.reverse.find? fun s => entryKey? (cut ts s) == some key with
  | none => exact .inl ⟨rfl, rfl⟩
  | some s =>
    exact .inr ⟨s, rfl, rfl, hall s (List.mem_reverse.mp (List.mem_of_find?_eq_some hs))⟩

end

/-! ### Imports -/

/-- The end of a statement whose specifier `t` stands at an index, and the index behind it. -/
def endAt (ts : List Token) (t : Token) (i : Nat) : Except Nat (Nat × Nat) :=
  if i + 1 < ts.length then do
    let s ← lookUp ts (i + 1)
    if s.isMark ';' then return (s.stop, i + 2) else return (t.stop, i + 1)
  else .ok (t.stop, i + 1)

/-- The statement whose word `import` stands at `start`, and whose specifier `t` stands at an index. -/
def closeImportAt (ts : List Token) (start : Nat) (names : List Text) (t : Token) (i : Nat) :
    Except Nat (Import × Nat) := do
  let e ← endAt ts t i
  let word ← lookUp ts start
  let quote ← lookUp t.text 0
  return (⟨word.start, e.1, names, t.unquoted, quote⟩, e.2)

/-- The name that an entry of a braced list binds, its tokens looked up one after the other. -/
def entryNameAt (ts : List Token) (s : Nat × Nat) : Except Nat (Option Text) := do
  let entry ← (List.range' s.1 (s.2 + 1 - s.1)).mapM (lookUp ts)
  return entryName? entry

/-- The statement whose word `import` stands at `start`, read from an index on, and the index behind what
is read. -/
def readImportAt (ts : List Token) (start : Nat) (names : List Text) (i : Nat) :
    Except Nat (Option Import × Nat) :=
  if _h : i < ts.length then do
    let t ← lookUp ts i
    match t.kind with
    | .string =>
      let r ← closeImportAt ts start names t i
      return (some r.1, r.2)
    | .ident => readImportAt ts start (bindName names t.text) (i + 1)
    | .template => return (none, i)
    | .punct =>
      if t.isMark '{' then
        match hc : closingAt ts i with
        | .error e => .error e
        | .ok none => return (none, i + 1)
        | .ok (some close) =>
          let spans ← spansAt ts i close
          let listed ← spans.mapM (entryNameAt ts)
          readImportAt ts start (names ++ listed.filterMap id) (close + 1)
      else if t.isMark '*' || t.isMark ',' then readImportAt ts start names (i + 1)
      else return (none, i)
  else .ok (none, i)
termination_by ts.length - i
decreasing_by
  · omega
  · have := le_of_closingFrom hc
    omega
  · omega

theorem le_of_endAt {ts : List Token} {t : Token} {i : Nat} {e : Nat × Nat}
    (h : endAt ts t i = .ok e) : i ≤ e.2 := by
  rw [endAt] at h
  split at h
  · obtain ⟨s, -, h⟩ := bind_eq_ok.mp h
    split at h
    · obtain rfl := Except.ok.inj h
      exact Nat.le_add_right i 2
    · obtain rfl := Except.ok.inj h
      exact Nat.le_succ i
  · obtain rfl := Except.ok.inj h
    exact Nat.le_succ i

/-- Reading goes forward. -/
theorem le_of_readImportAt {ts : List Token} {start : Nat} {names : List Text} {i : Nat}
    {r : Option Import × Nat} (h : readImportAt ts start names i = .ok r) : i ≤ r.2 := by
  induction hn : ts.length - i using Nat.strong_induction_on generalizing i names with
  | h n ih =>
    rw [readImportAt] at h
    split at h
    case isFalse =>
      obtain rfl := Except.ok.inj h
      exact Nat.le_refl i
    case isTrue hlt =>
      have hnext {names : List Text} {j : Nat} (hj : i < j)
          (h : readImportAt ts start names j = .ok r) : i ≤ r.2 :=
        Nat.le_of_lt (Nat.lt_of_lt_of_le hj (ih (ts.length - j) (by omega) h rfl))
      obtain ⟨t, -, h⟩ := bind_eq_ok.mp h
      split at h
      · obtain ⟨c, hclose, h⟩ := bind_eq_ok.mp h
        obtain ⟨e, he, hclose⟩ := bind_eq_ok.mp hclose
        obtain ⟨word, -, hclose⟩ := bind_eq_ok.mp hclose
        obtain ⟨quote, -, hclose⟩ := bind_eq_ok.mp hclose
        obtain rfl := Except.ok.inj hclose
        obtain rfl := Except.ok.inj h
        exact le_of_endAt he
      · exact hnext (Nat.lt_succ_self i) h
      · obtain rfl := Except.ok.inj h
        exact Nat.le_refl i
      · split at h
        · split at h
          · cases h
          · obtain rfl := Except.ok.inj h
            exact Nat.le_succ i
          next close hc =>
            obtain ⟨spans, -, h⟩ := bind_eq_ok.mp h
            obtain ⟨listed, -, h⟩ := bind_eq_ok.mp h
            exact hnext (Nat.lt_succ_of_le (le_of_closingFrom hc)) h
        · split at h
          · exact hnext (Nat.lt_succ_self i) h
          · obtain rfl := Except.ok.inj h
            exact Nat.le_refl i

/-- The statements from an index on, where `depth` brackets are still open. -/
def importsAt (ts : List Token) (depth i : Nat) : Except Nat (List Import) :=
  if _h : i < ts.length then do
    let t ← lookUp ts i
    if t.opens then importsAt ts (depth + 1) (i + 1)
    else if t.closes then importsAt ts (depth - 1) (i + 1)
    else if depth = 0 && t.isWord "import".toList then
      if i + 1 < ts.length then
        let f ← lookUp ts (i + 1)
        if f.isMark '(' || f.isMark '.' then importsAt ts depth (i + 1)
        else
          match _hr : readImportAt ts i [] (i + 1) with
          | .error e => .error e
          | .ok r =>
            let more ← importsAt ts depth r.2
            return r.1.toList ++ more
      else importsAt ts depth (i + 1)
    else importsAt ts depth (i + 1)
  else .ok []
termination_by ts.length - i
decreasing_by
  · omega
  · omega
  · omega
  · have := le_of_readImportAt _hr
    omega
  · omega
  · omega

section
variable {ts rest : List Token} {t word : Token} {start i : Nat}

theorem exists_endAt (h : ts.drop i = t :: rest) (names : List Text) (s : Nat) :
    ∃ e, endAt ts t i = .ok e ∧ (closeImport s names t rest).1.stop = e.1 ∧
      ts.drop e.2 = (closeImport s names t rest).2 := by
  have hlen := congrArg List.length h
  rw [List.length_drop, List.length_cons] at hlen
  rw [endAt]
  cases rest with
  | nil =>
    rw [List.length_nil] at hlen
    rw [if_neg (by omega)]
    exact ⟨_, rfl, rfl, drop_succ_of_drop h⟩
  | cons u us =>
    have hu := drop_succ_of_drop h
    rw [List.length_cons] at hlen
    rw [if_pos (by omega), lookUp_of_drop hu, ok_bind]
    by_cases hm : u.isMark ';' = true
    · rw [if_pos hm, closeImport_semicolon hm]
      exact ⟨_, rfl, rfl, drop_succ_of_drop hu⟩
    · have hother : ∀ s ∈ (u :: us).head?, ¬ s.isMark ';' = true := by
        rintro s ⟨⟩
        exact hm
      rw [if_neg hm, closeImport_other hother]
      exact ⟨_, rfl, rfl, hu⟩

theorem exists_closeImportAt (hstart : lookUp ts start = .ok word) (ht : t.text ≠ [])
    (h : ts.drop i = t :: rest) (names : List Text) :
    ∃ r, closeImportAt ts start names t i = .ok r ∧ r.1 = (closeImport word.start names t rest).1 ∧
      ts.drop r.2 = (closeImport word.start names t rest).2 := by
  obtain ⟨e, he, hstop, hdrop⟩ := exists_endAt h names word.start
  obtain ⟨q, cs, htext⟩ := List.exists_cons_of_ne_nil ht
  have hquote : lookUp t.text 0 = .ok (t.text.headD '\'') := by rw [htext]; rfl
  rw [closeImportAt, he, ok_bind, hstart, ok_bind, hquote, ok_bind]
  refine ⟨_, rfl, ?_, hdrop⟩
  obtain ⟨stop, hread⟩ := exists_closeImport_eq word.start names t rest
  rw [← hstop, hread]

/-- The names that a braced list binds, its entries looked up one after the other. -/
theorem mapM_entryNameAt {close : Nat} {spans : List (Nat × Nat)} {inside : List Token}
    (hmap : spans.map (cut ts) = entries inside) (hall : ∀ s ∈ spans, IsSpan ts close s)
    (hclose : close ≤ ts.length) :
    ∃ listed, spans.mapM (entryNameAt ts) = .ok listed ∧ listed.filterMap id = listedNames inside := by
  refine ⟨spans.map fun s => entryName? (cut ts s), mapM_eq_ok fun s hs => ?_, ?_⟩
  · rw [entryNameAt, mapM_lookUp_cut (hall s hs) hclose]
    rfl
  · rw [listedNames, ← hmap, List.filterMap_map, List.filterMap_map]
    rfl

/-- Read by index, a statement is the one that the tokens from there on begin with. -/
theorem exists_readImportAt (hstart : lookUp ts start = .ok word) (htext : ∀ t ∈ ts, t.text ≠ [])
    (names : List Text) (h : ts.drop i = rest) :
    ∃ r, readImportAt ts start names i = .ok r ∧ r.1 = (readImport word.start names rest).1 ∧
      ts.drop r.2 = (readImport word.start names rest).2 := by
  fun_induction readImport word.start names rest generalizing i with
  | case1 =>
    rw [readImportAt, dif_neg (not_lt_of_drop h)]
    exact ⟨_, rfl, rfl, h⟩
  | case2 names t rest hk =>
    have hmem : t ∈ ts := List.mem_of_mem_drop (h ▸ List.mem_cons_self)
    obtain ⟨r, hr, hs, hdrop⟩ := exists_closeImportAt hstart (htext t hmem) h names
    rw [readImportAt, dif_pos (lt_of_drop h), lookUp_of_drop h, ok_bind, hk]
    simp only [hr, ok_bind]
    exact ⟨_, rfl, congrArg some hs, hdrop⟩
  | case3 names t rest hk ih =>
    rw [readImportAt, dif_pos (lt_of_drop h), lookUp_of_drop h, ok_bind, hk]
    exact ih (drop_succ_of_drop h)
  | case4 names t rest hk =>
    rw [readImportAt, dif_pos (lt_of_drop h), lookUp_of_drop h, ok_bind, hk]
    exact ⟨_, rfl, rfl, h⟩
  | case5 names t rest hk hm hnone =>
    have hclosing := closingAt_eq h (closer?_of_brace hm)
    rw [hnone] at hclosing
    rw [readImportAt, dif_pos (lt_of_drop h), lookUp_of_drop h, ok_bind, hk]
    simp only [if_pos hm]
    split
    next he => rw [hclosing] at he; cases he
    next => exact ⟨_, rfl, rfl, drop_succ_of_drop h⟩
    next he => rw [hclosing] at he; cases he
  | case6 names t rest hk hm g hg ih =>
    have hclosing := closingAt_eq h (closer?_of_brace hm)
    have hinside := drop_succ_of_drop h
    rw [hg] at hclosing
    rw [eq_of_enclosed? hg] at hinside
    obtain ⟨spans, hspans, hmap, hall⟩ := exists_spansAt hinside
    have hafter := drop_append_of_drop hinside
    obtain ⟨listed, hlisted, hnames⟩ := mapM_entryNameAt hmap hall (Nat.le_of_lt (lt_of_drop hafter))
    rw [readImportAt, dif_pos (lt_of_drop h), lookUp_of_drop h, ok_bind, hk]
    simp only [if_pos hm]
    split
    next he => rw [hclosing] at he; cases he
    next he => rw [hclosing] at he; cases he
    next close he =>
      rw [hclosing] at he
      obtain rfl : i + 1 + g.inside.length = close := Option.some.inj (Except.ok.inj he)
      rw [hspans, ok_bind, hlisted, ok_bind, hnames]
      exact ih (drop_succ_of_drop hafter)
  | case7 names t rest hk hm hs ih =>
    rw [readImportAt, dif_pos (lt_of_drop h), lookUp_of_drop h, ok_bind, hk]
    simp only [if_neg hm, if_pos hs]
    exact ih (drop_succ_of_drop h)
  | case8 names t rest hk hm hs =>
    rw [readImportAt, dif_pos (lt_of_drop h), lookUp_of_drop h, ok_bind, hk]
    simp only [if_neg hm, if_neg hs]
    exact ⟨_, rfl, rfl, h⟩

/-- Read by index, the statements from there on are those among the tokens. -/
theorem importsAt_eq (htext : ∀ t ∈ ts, t.text ≠ []) {depth : Nat} (h : ts.drop i = rest) :
    importsAt ts depth i = .ok (importsFrom depth rest) := by
  induction hn : rest.length using Nat.strong_induction_on generalizing rest depth i with
  | h n ih =>
    cases rest with
    | nil =>
      rw [importsAt, dif_neg (not_lt_of_drop h), importsFrom_nil]
    | cons t rest =>
      have hrest := drop_succ_of_drop h
      have hnext (depth : Nat) : importsAt ts depth (i + 1) = .ok (importsFrom depth rest) :=
        ih rest.length (by rw [← hn]; exact Nat.lt_succ_self _) hrest rfl
      rw [importsAt, dif_pos (lt_of_drop h), lookUp_of_drop h, ok_bind]
      by_cases ho : t.opens = true
      · rw [if_pos ho, hnext, importsFrom_opens ho]
      by_cases hcl : t.closes = true
      · rw [if_neg ho, if_pos hcl, hnext, importsFrom_closes hcl]
      rw [if_neg ho, if_neg hcl]
      by_cases himport : depth = 0 ∧ t.isWord "import".toList = true
      swap
      · rw [if_neg (by simpa using himport), hnext, importsFrom_plain ho hcl himport]
      obtain ⟨rfl, hword⟩ := himport
      rw [if_pos (by rw [hword]; rfl)]
      cases rest with
      | nil =>
        rw [if_neg (not_lt_of_drop hrest), hnext, importsFrom_nil, importsFrom_singleton]
      | cons f rest =>
        rw [if_pos (lt_of_drop hrest), lookUp_of_drop hrest, ok_bind]
        by_cases hf : (f.isMark '(' || f.isMark '.') = true
        · rw [if_pos hf, hnext, importsFrom_call hword hf]
        · obtain ⟨r, hr, hs, hdrop⟩ := exists_readImportAt (lookUp_of_drop h) htext [] hrest
          have hlen := readImport_length t.start [] (f :: rest)
          rw [if_neg hf, importsFrom_import hword hf]
          split
          next he => rw [hr] at he; cases he
          next he =>
            rw [hr] at he
            obtain rfl := Except.ok.inj he
            rw [ih _ (by rw [← hn, List.length_cons]; omega) hdrop rfl, hs]
            rfl

/-- **Read by index, the statements are those among the tokens.** -/
theorem importsAt_zero (htext : ∀ t ∈ ts, t.text ≠ []) : importsAt ts 0 0 = .ok (imports ts) :=
  importsAt_eq htext (List.drop_zero)

end

end Graft.Script
