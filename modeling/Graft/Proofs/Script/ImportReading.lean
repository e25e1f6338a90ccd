import Graft.Proofs.Script.Skipping
import Graft.Script.Import

/-
What the reader of imports takes from tokens.

* `closeImport_cases` — a semicolon behind its string ends a statement, or the string does;
* `readImport_suffix` — what is left after an attempt is the end of the tokens;
* `Ends ts s` — the statement `s` ends with one of the tokens, and takes its quote from a string;
* `ends_of_mem_imports` — every statement does;
* `readImport_change` — **other tokens behind what is read leave it as it is**.
-/
namespace Graft.Script

theorem suffix_of_enclosed? {t : Token} {ts : List Token} {g : Group}
    (h : enclosed? (t :: ts) = some g) : g.after <:+ ts := by
  refine ⟨g.inside ++ [g.closing], ?_⟩
  rw [eq_of_enclosed? h, List.append_assoc]
  rfl

/-! ### The end of a statement -/

/-- A semicolon behind its string ends a statement. -/
theorem closeImport_semicolon {s : Token} (h : s.isMark ';' = true) (start : Nat) (names : List Text)
    (t : Token) (ts : List Token) : closeImport start names t (s :: ts) =
      (⟨start, s.stop, names, t.unquoted, t.text.headD '\''⟩, ts) := by
  unfold closeImport
  simp only [if_pos h]

/-- Without a semicolon it ends with the string. -/
theorem closeImport_other {ts : List Token} (h : ∀ s ∈ ts.head?, ¬ s.isMark ';' = true) (start : Nat)
    (names : List Text) (t : Token) : closeImport start names t ts =
      (⟨start, t.stop, names, t.unquoted, t.text.headD '\''⟩, ts) := by
  unfold closeImport
  cases ts with
  | nil => rfl
  | cons s rest => simp only [if_neg (h s rfl)]

theorem closeImport_cases (start : Nat) (names : List Text) (t : Token) (ts : List Token) :
    (∃ s rest, ts = s :: rest ∧ s.isMark ';' = true ∧ closeImport start names t ts =
      (⟨start, s.stop, names, t.unquoted, t.text.headD '\''⟩, rest)) ∨
    (∀ s ∈ ts.head?, ¬ s.isMark ';' = true) ∧ closeImport start names t ts =
      (⟨start, t.stop, names, t.unquoted, t.text.headD '\''⟩, ts) := by
  by_cases h : ∃ s ∈ ts.head?, s.isMark ';' = true
  · obtain ⟨s, hs, hmark⟩ := h
    obtain ⟨rest, rfl⟩ := List.head?_eq_some_iff.mp hs
    exact .inl ⟨s, rest, rfl, hmark, closeImport_semicolon hmark start names t rest⟩
  · have hother : ∀ s ∈ ts.head?, ¬ s.isMark ';' = true := fun s hs hmark => h ⟨s, hs, hmark⟩
    exact .inr ⟨hother, closeImport_other hother start names t⟩

/-- All but the end of a statement is fixed before it is closed. -/
theorem exists_closeImport_eq (start : Nat) (names : List Text) (t : Token) (ts : List Token) :
    ∃ stop, (closeImport start names t ts).1 = ⟨start, stop, names, t.unquoted, t.text.headD '\''⟩ := by
  rcases closeImport_cases start names t ts with ⟨s, rest, -, -, h⟩ | ⟨-, h⟩
  · exact ⟨s.stop, by rw [h]⟩
  · exact ⟨t.stop, by rw [h]⟩

theorem closeImport_start (start : Nat) (names : List Text) (t : Token) (ts : List Token) :
    (closeImport start names t ts).1.start = start := by
  obtain ⟨stop, h⟩ := exists_closeImport_eq start names t ts
  rw [h]

theorem closeImport_suffix (start : Nat) (names : List Text) (t : Token) (ts : List Token) :
    (closeImport start names t ts).2 <:+ ts := by
  rcases closeImport_cases start names t ts with ⟨s, rest, rfl, -, h⟩ | ⟨-, h⟩
  · exact h ▸ List.suffix_cons s rest
  · exact h ▸ List.suffix_rfl

/-! ### Attempts -/

/-- What is left after an attempt is the end of the tokens. -/
theorem readImport_suffix (start : Nat) (names : List Text) (ts : List Token) :
    (readImport start names ts).2 <:+ ts := by
  fun_induction readImport start names ts with
  | case1 => exact List.suffix_rfl
  | case2 names t ts hk => exact (closeImport_suffix start names t ts).trans (List.suffix_cons t ts)
  | case3 names t ts hk ih => exact ih.trans (List.suffix_cons t ts)
  | case4 => exact List.suffix_rfl
  | case5 names t ts => exact List.suffix_cons t ts
  | case6 names t ts hk hm g h ih =>
    exact ih.trans ((suffix_of_enclosed? h).trans (List.suffix_cons t ts))
  | case7 names t ts hk hm hs ih => exact ih.trans (List.suffix_cons t ts)
  | case8 => exact List.suffix_rfl

/-- A statement that ends with one of the tokens and takes its quote from a string among them. -/
structure Ends (ts : List Token) (s : Import) : Prop where
  -- It ends with a token.
  stop : ∃ t ∈ ts, t.stop = s.stop
  -- Its quote is that of a string.
  quote : ∃ t ∈ ts, t.kind = .string ∧ s.quote = t.text.headD '\''

theorem Ends.of_suffix {ts us : List Token} {s : Import} (h : Ends ts s) (hs : ts <:+ us) :
    Ends us s where
  stop := by
    obtain ⟨t, ht, h⟩ := h.stop
    exact ⟨t, hs.mem ht, h⟩
  quote := by
    obtain ⟨t, ht, h⟩ := h.quote
    exact ⟨t, hs.mem ht, h⟩

theorem ends_readImport {start : Nat} {names : List Text} {ts : List Token} {s : Import}
    (h : (readImport start names ts).1 = some s) : Ends ts s := by
  fun_induction readImport start names ts with
  | case1 => cases h
  | case2 names t ts hk =>
    obtain rfl := Option.some.inj h
    rcases closeImport_cases start names t ts with ⟨u, us, rfl, -, h⟩ | ⟨-, h⟩ <;> rw [h]
    · exact ⟨⟨u, by simp, rfl⟩, t, List.mem_cons_self, hk, rfl⟩
    · exact ⟨⟨t, List.mem_cons_self, rfl⟩, t, List.mem_cons_self, hk, rfl⟩
  | case3 names t ts hk ih => exact (ih h).of_suffix (List.suffix_cons t ts)
  | case4 => cases h
  | case5 => cases h
  | case6 names t ts hk hm g hg ih =>
    exact (ih h).of_suffix ((suffix_of_enclosed? hg).trans (List.suffix_cons t ts))
  | case7 names t ts hk hm hs ih => exact (ih h).of_suffix (List.suffix_cons t ts)
  | case8 => cases h

/-- Every statement ends with one of the tokens. -/
theorem ends_of_mem_imports {d : Nat} {ts : List Token} {s : Import} (h : s ∈ importsFrom d ts) :
    Ends ts s := by
  fun_induction importsFrom d ts with
  | case1 => cases h
  | case2 d t ts ho ih => exact (ih h).of_suffix (List.suffix_cons t ts)
  | case3 d t ts ho hcl ih => exact (ih h).of_suffix (List.suffix_cons t ts)
  | case4 => cases h
  | case5 d t ho hcl hd f rest hf ih => exact (ih h).of_suffix (List.suffix_cons t _)
  | case6 d t ho hcl hd f rest hf r ih =>
    rw [List.mem_append] at h
    rcases h with h | h
    · exact (ends_readImport (Option.mem_toList.mp h)).of_suffix (List.suffix_cons t _)
    · exact (ih h).of_suffix ((readImport_suffix _ _ _).trans (List.suffix_cons t _))
  | case7 d t ts ho hcl hd ih => exact (ih h).of_suffix (List.suffix_cons t ts)

theorem readImport_start {start : Nat} {names : List Text} {ts : List Token} {s : Import}
    (h : (readImport start names ts).1 = some s) : s.start = start := by
  fun_induction readImport start names ts with
  | case1 => cases h
  | case2 names t ts hk => rw [← Option.some.inj h, closeImport_start]
  | case3 names t ts hk ih => exact ih h
  | case4 => cases h
  | case5 => cases h
  | case6 names t ts hk hm g hg ih => exact ih h
  | case7 names t ts hk hm hs ih => exact ih h
  | case8 => cases h

/-- Every statement starts with a token, and ends with a later one. -/
theorem start_of_mem_imports {d : Nat} {ts : List Token} {s : Import} (h : s ∈ importsFrom d ts) :
    ∃ A i M, ts = A ++ i :: M ∧ i.start = s.start ∧ Ends M s := by
  have hnext {t : Token} {ts : List Token} :
      (∃ A i M, ts = A ++ i :: M ∧ i.start = s.start ∧ Ends M s) →
        ∃ A i M, t :: ts = A ++ i :: M ∧ i.start = s.start ∧ Ends M s := by
    rintro ⟨A, i, M, rfl, hstart, hends⟩
    exact ⟨t :: A, i, M, rfl, hstart, hends⟩
  fun_induction importsFrom d ts with
  | case1 => cases h
  | case2 d t ts ho ih => exact hnext (ih h)
  | case3 d t ts ho hcl ih => exact hnext (ih h)
  | case4 => cases h
  | case5 d t ho hcl hd f rest hf ih => exact hnext (ih h)
  | case6 d t ho hcl hd f rest hf r ih =>
    rw [List.mem_append] at h
    rcases h with h | h
    · have hread := Option.mem_toList.mp h
      exact ⟨[], t, f :: rest, rfl, (readImport_start hread).symm, ends_readImport hread⟩
    · obtain ⟨A, i, M, hleft, hstart, hends⟩ := ih h
      obtain ⟨y, hy⟩ := readImport_suffix t.start [] (f :: rest)
      refine ⟨t :: (y ++ A), i, M, ?_, hstart, hends⟩
      rw [← hy, hleft]
      simp
  | case7 d t ts ho hcl hd ih => exact hnext (ih h)

/-! ### What the reader passes -/

theorem skips_closeImport (start : Nat) (names : List Text) (t : Token) (ts : List Token) :
    Skips ts (closeImport start names t ts).2 := by
  rcases closeImport_cases start names t ts with ⟨s, rest, rfl, hs, h⟩ | ⟨-, h⟩ <;> rw [h]
  · exact .plain (plain_of_isMark hs (by decide)).1 (.refl _)
  · exact .refl _

/-- The reader passes tokens one by one, and groups as a whole. -/
theorem skips_readImport (start : Nat) (names : List Text) (ts : List Token) :
    Skips ts (readImport start names ts).2 := by
  fun_induction readImport start names ts with
  | case1 => exact .refl _
  | case2 names t ts hk =>
    exact .plain (plain_of_kind (by rw [hk]; decide)).1 (skips_closeImport start names t ts)
  | case3 names t ts hk ih => exact .plain (plain_of_kind (by rw [hk]; decide)).1 ih
  | case4 => exact .refl _
  | case5 names t ts hk hm h => exact .lone h (.refl _)
  | case6 names t ts hk hm g h ih => exact .group h ih
  | case7 names t ts hk hm hs ih =>
    refine .plain ?_ ih
    rw [Bool.or_eq_true] at hs
    rcases hs with hs | hs
    · exact (plain_of_isMark hs (by decide)).1
    · exact (plain_of_isMark hs (by decide)).1
  | case8 => exact .refl _

/-- A statement that is read ends right before what is left. -/
theorem end_readImport {start : Nat} {names : List Text} {ts : List Token} {s : Import}
    (h : (readImport start names ts).1 = some s) :
    ∃ L t, ts = L ++ t :: (readImport start names ts).2 ∧ t.stop = s.stop ∧
      (t.kind = .string ∨ t.isMark ';' = true) := by
  fun_induction readImport start names ts with
  | case1 => cases h
  | case2 names t ts hk =>
    obtain rfl := Option.some.inj h
    rcases closeImport_cases start names t ts with ⟨u, us, rfl, hu, h⟩ | ⟨-, h⟩ <;> rw [h]
    · exact ⟨[t], u, rfl, rfl, .inr hu⟩
    · exact ⟨[], t, rfl, rfl, .inl hk⟩
  | case3 names t ts hk ih =>
    obtain ⟨L, u, hts, hstop, hu⟩ := ih h
    exact ⟨t :: L, u, congrArg (t :: ·) hts, hstop, hu⟩
  | case4 => cases h
  | case5 => cases h
  | case6 names t ts hk hm g hg ih =>
    obtain ⟨L, u, hts, hstop, hu⟩ := ih h
    refine ⟨t :: (g.inside ++ g.closing :: L), u, ?_, hstop, hu⟩
    have hts' := eq_of_enclosed? hg
    rw [hts] at hts'
    rw [List.cons_append, List.append_assoc]
    exact congrArg (t :: ·) hts'
  | case7 names t ts hk hm hs ih =>
    obtain ⟨L, u, hts, hstop, hu⟩ := ih h
    exact ⟨t :: L, u, congrArg (t :: ·) hts, hstop, hu⟩
  | case8 => cases h

/-! ### One token -/

theorem readImport_string {t : Token} (h : t.kind = .string) (start : Nat) (names : List Text)
    (ts : List Token) : readImport start names (t :: ts) =
      (some (closeImport start names t ts).1, (closeImport start names t ts).2) := by
  rw [readImport, h]

theorem readImport_ident {t : Token} (h : t.kind = .ident) (start : Nat) (names : List Text)
    (ts : List Token) :
    readImport start names (t :: ts) = readImport start (bindName names t.text) ts := by
  rw [readImport, h]

theorem readImport_template {t : Token} (h : t.kind = .template) (start : Nat) (names : List Text)
    (ts : List Token) : readImport start names (t :: ts) = (none, t :: ts) := by
  rw [readImport, h]

theorem readImport_lone {t : Token} (h : t.isMark '{' = true) {ts : List Token}
    (hg : enclosed? (t :: ts) = none) (start : Nat) (names : List Text) :
    readImport start names (t :: ts) = (none, ts) := by
  rw [readImport, (isMark_iff.mp h).1]
  simp only [h, if_true]
  split
  next => rfl
  next hg' =>
    rw [hg] at hg'
    cases hg'

theorem readImport_group {t : Token} (h : t.isMark '{' = true) {ts : List Token} {g : Group}
    (hg : enclosed? (t :: ts) = some g) (start : Nat) (names : List Text) :
    readImport start names (t :: ts) = readImport start (names ++ listedNames g.inside) g.after := by
  rw [readImport, (isMark_iff.mp h).1]
  simp only [h, if_true]
  split
  next hg' =>
    rw [hg] at hg'
    cases hg'
  next g' hg' =>
    rw [hg] at hg'
    rw [Option.some.inj hg']

theorem readImport_mark {t : Token} (hk : t.kind = .punct) (h : ¬ t.isMark '{' = true)
    (start : Nat) (names : List Text) (ts : List Token) : readImport start names (t :: ts) =
      if t.isMark '*' || t.isMark ',' then readImport start names ts else (none, t :: ts) := by
  rw [readImport, hk]
  simp only [if_neg h]

/-! ### Other tokens further on -/

variable {N a b y : List Token}

theorem closeImport_change {start : Nat} {names : List Text} {t : Token}
    (h : (closeImport start names t (a ++ b)).2 = y ++ b)
    (hend : y ≠ [] ∨ ∀ x ∈ N.head?, x.isMark ';' = false) :
    closeImport start names t (a ++ N) = ((closeImport start names t (a ++ b)).1, y ++ N) := by
  rcases closeImport_cases start names t (a ++ b) with ⟨s, rest, hab, hs, heq⟩ | ⟨hother, heq⟩
  · -- As `b` is left, the semicolon stands before it.
    rw [heq] at h ⊢
    cases a with
    | nil =>
      have hlen := congrArg List.length hab
      rw [List.nil_append, List.length_cons, show rest = y ++ b from h, List.length_append] at hlen
      omega
    | cons u as =>
      obtain ⟨rfl, htail⟩ : u = s ∧ as ++ b = rest := List.cons.inj hab
      obtain rfl : as = y := List.append_cancel_right (htail.trans h)
      rw [List.cons_append, closeImport_semicolon hs]
  · rw [heq] at h ⊢
    obtain rfl : a = y := List.append_cancel_right h
    refine closeImport_other (fun s hs => ?_) start names t
    cases a with
    | nil =>
      rw [hend.resolve_left (fun hne => hne rfl) s hs]
      decide
    | cons u as => exact hother s hs

/-- Where a token has been passed and more than `b` may be left, the token stands before `b`. -/
theorem exists_cons_of_passed {t : Token} {ts rest : List Token} (hts : a ++ b = t :: ts)
    (hrest : rest = y ++ b) (hlen : rest.length ≤ ts.length) : ∃ as, a = t :: as ∧ as ++ b = ts := by
  cases a with
  | nil =>
    have hb := congrArg List.length hts
    rw [hrest, List.length_append] at hlen
    rw [List.nil_append, List.length_cons] at hb
    omega
  | cons u as =>
    obtain ⟨rfl, htail⟩ := List.cons.inj hts
    exact ⟨as, rfl, htail⟩

/-- Where a token has been left and more than `b` is, the token stands before `b`. -/
theorem exists_cons_of_left {t : Token} {ts : List Token} (hts : a ++ b = t :: ts)
    (hleft : t :: ts = y ++ b) (hne : y ≠ []) : ∃ as, a = t :: as ∧ y = t :: as := by
  rw [← hts] at hleft
  obtain rfl := List.append_cancel_right hleft
  cases a with
  | nil => exact absurd rfl hne
  | cons u as =>
    obtain ⟨rfl, -⟩ := List.cons.inj hts
    exact ⟨as, rfl, rfl⟩

/-- Other tokens behind what the reader passes change nothing, when they close no more groups.  Right
behind it they must not go on with the statement. -/
theorem readImport_change (hlone : Unclosed a b N) {start : Nat} {names : List Text}
    (h : (readImport start names (a ++ b)).2 = y ++ b)
    (hend : y ≠ [] ∨ ((readImport start names (a ++ b)).1.isSome = true ∧
      ∀ x ∈ N.head?, x.isMark ';' = false)) :
    readImport start names (a ++ N) = ((readImport start names (a ++ b)).1, y ++ N) := by
  generalize hts : a ++ b = ts at h hend ⊢
  fun_induction readImport start names ts generalizing a with
  | case1 =>
    rw [eq_comm, List.append_eq_nil_iff] at h
    rcases hend with hne | ⟨hsome, -⟩
    · exact absurd h.1 hne
    · cases hsome
  | case2 names t ts hk =>
    obtain ⟨as, rfl, rfl⟩ := exists_cons_of_passed hts h (closeImport_length start names t ts)
    rw [List.cons_append, readImport_string hk,
      closeImport_change (N := N) h (hend.imp_right fun h => h.2)]
  | case3 names t ts hk ih =>
    obtain ⟨as, rfl, rfl⟩ := exists_cons_of_passed hts h (readImport_length start _ ts)
    rw [List.cons_append, readImport_ident hk]
    exact ih hlone.of_cons rfl h hend
  | case4 names t ts hk =>
    have hne : y ≠ [] := hend.resolve_right fun h => absurd h.1 Bool.false_ne_true
    obtain ⟨as, rfl, rfl⟩ := exists_cons_of_left hts h hne
    rw [List.cons_append, readImport_template hk]
  | case5 names t ts hk hm hg =>
    obtain ⟨as, rfl, rfl⟩ := exists_cons_of_passed hts h (le_refl _)
    rw [List.cons_append, readImport_lone hm (hlone [] t as rfl hg), List.append_cancel_right h]
  | case6 names t ts hk hm g hg ih =>
    have hlen := readImport_length start (names ++ listedNames g.inside) g.after
    obtain ⟨as, rfl, rfl⟩ := exists_cons_of_passed hts h (hlen.trans (enclosed?_length hg).le)
    -- What is left after the group is more than `b`, so the group ends in `a`.
    obtain ⟨w, hw⟩ := readImport_suffix start (names ++ listedNames g.inside) g.after
    rw [h, ← List.append_assoc] at hw
    have hsame : as ++ b = (g.inside ++ g.closing :: (w ++ y)) ++ b := by
      rw [eq_of_enclosed? hg, ← hw]
      simp only [List.append_assoc, List.cons_append]
    obtain rfl : as = g.inside ++ g.closing :: (w ++ y) := List.append_cancel_right hsame
    have hg' := enclosed?_change_after hg ((w ++ y) ++ N)
    have hshape : g.inside ++ g.closing :: ((w ++ y) ++ N) =
        (g.inside ++ g.closing :: (w ++ y)) ++ N := by
      simp only [List.append_assoc, List.cons_append]
    rw [hshape] at hg'
    rw [List.cons_append, readImport_group hm hg']
    refine ih ?_ hw h hend
    exact Unclosed.of_append (A := t :: (g.inside ++ [g.closing])) (by simpa using hlone)
  | case7 names t ts hk hm hs ih =>
    obtain ⟨as, rfl, rfl⟩ := exists_cons_of_passed hts h (readImport_length start _ ts)
    rw [List.cons_append, readImport_mark hk hm, if_pos hs]
    exact ih hlone.of_cons rfl h hend
  | case8 names t ts hk hm hs =>
    have hne : y ≠ [] := hend.resolve_right fun h => absurd h.1 Bool.false_ne_true
    obtain ⟨as, rfl, rfl⟩ := exists_cons_of_left hts h hne
    rw [List.cons_append, readImport_mark hk hm, if_neg hs]

end Graft.Script
