import Graft.Proofs.Script.Offsetless
import Graft.Proofs.Script.Refilling

/-
Tokens pushed apart at a place, and what is put there.

* `Token.shift k t` — a token `k` further on;
* `Token.push n k t`, `Import.push n k s` — a token, and a statement, with what stands from the place `n`
  on `k` further on;
* `importsFrom_push` — **tokens that are pushed apart hold the same statements, pushed apart**;
* `importsFrom_fill` — **nested tokens put into a group that no statement goes on over leave the
  statements as they are**.

Design notes: an insertion is taken apart into these two.  The first changes offsets and nothing else, the
second changes no offset.
-/
namespace Graft.Script

/-! ### Offsets -/

/-- A token `k` further on. -/
def Token.shift (k : Nat) (t : Token) : Token := { t with start := t.start + k }

theorem moves_shift (k : Nat) : Moves (Token.shift k) := fun _ => rfl

/-- Pieces that begin further on hold tokens further on. -/
theorem tokensFrom_shift (n k : Nat) (ps : List Piece) :
    tokensFrom (n + k) ps = (tokensFrom n ps).map (Token.shift k) := by
  induction ps generalizing n with
  | nil => rfl
  | cons p ps ih =>
    cases p with
    | gap t =>
      rw [tokensFrom, tokensFrom, ← ih]
      congr 1
      omega
    | token kind t =>
      rw [tokensFrom, tokensFrom, List.map_cons, ← ih]
      congr 2
      omega

/-- Where what starts at an offset starts when all from the place `n` on stands `k` further on. -/
def pushStart (n k i : Nat) : Nat := if i < n then i else i + k

/-- Where what stops at an offset stops when all from the place `n` on stands `k` further on. -/
def pushStop (n k i : Nat) : Nat := if i ≤ n then i else i + k

/-- A token with all from the place `n` on `k` further on. -/
def Token.push (n k : Nat) (t : Token) : Token := { t with start := pushStart n k t.start }

/-- A statement with all from the place `n` on `k` further on. -/
def Import.push (n k : Nat) (s : Import) : Import :=
  { s with start := pushStart n k s.start, stop := pushStop n k s.stop }

/-- A place that stands within no token. -/
def Parted (n : Nat) (ts : List Token) : Prop := ∀ t ∈ ts, t.start < n ↔ t.stop ≤ n

theorem moves_push (n k : Nat) : Moves (Token.push n k) := fun _ => rfl

@[simp] theorem Token.isMark_push (n k : Nat) (c : Char) (t : Token) :
    (t.push n k).isMark c = t.isMark c := rfl

theorem Token.stop_push {n : Nat} {t : Token} (h : t.start < n ↔ t.stop ≤ n) (k : Nat) :
    (t.push n k).stop = pushStop n k t.stop := by
  show pushStart n k t.start + t.text.length = _
  by_cases ht : t.start < n
  · rw [pushStart, pushStop, if_pos ht, if_pos (h.mp ht)]
    rfl
  · rw [pushStart, pushStop, if_neg ht, if_neg fun hle => ht (h.mpr hle), Token.stop]
    omega

theorem map_push_of_lt {n : Nat} {ts : List Token} (h : ∀ t ∈ ts, t.start < n) (k : Nat) :
    ts.map (Token.push n k) = ts := by
  have hsame (t : Token) (ht : t ∈ ts) : t.push n k = id t := by
    rw [Token.push, pushStart, if_pos (h t ht)]
    rfl
  rw [List.map_congr_left hsame, List.map_id]

theorem map_push_of_le {n : Nat} {ts : List Token} (h : ∀ t ∈ ts, n ≤ t.start) (k : Nat) :
    ts.map (Token.push n k) = ts.map (Token.shift k) := by
  refine List.map_congr_left fun t ht => ?_
  rw [Token.push, pushStart, if_neg (Nat.not_lt.mpr (h t ht))]
  rfl

/-! ### Statements -/

variable {n : Nat} {t : Token} {ts : List Token}

theorem Parted.tail (h : Parted n (t :: ts)) : Parted n ts := fun u hu =>
  h u (List.mem_cons_of_mem t hu)

theorem closeImport_push (h : Parted n (t :: ts)) (k start : Nat) (names : List Text) :
    closeImport (pushStart n k start) names (t.push n k) (ts.map (Token.push n k)) =
      ((closeImport start names t ts).1.push n k,
        (closeImport start names t ts).2.map (Token.push n k)) := by
  have hmade {u : Token} (hu : u ∈ t :: ts) :
      (⟨pushStart n k start, (u.push n k).stop, names, (t.push n k).unquoted,
        (t.push n k).text.headD '\''⟩ : Import) =
          Import.push n k ⟨start, u.stop, names, t.unquoted, t.text.headD '\''⟩ := by
    rw [Token.stop_push (h u hu)]
    rfl
  rcases closeImport_cases start names t ts with ⟨s, rest, rfl, hs, heq⟩ | ⟨hother, heq⟩ <;> rw [heq]
  · rw [List.map_cons, closeImport_semicolon (s := s.push n k) hs,
      hmade (List.mem_cons_of_mem t List.mem_cons_self)]
  · rw [closeImport_other, hmade List.mem_cons_self]
    intro s hs
    rw [List.head?_map] at hs
    obtain ⟨u, hu, rfl⟩ := Option.map_eq_some_iff.mp hs
    exact hother u hu

theorem readImport_push (h : Parted n ts) (k start : Nat) (names : List Text) :
    readImport (pushStart n k start) names (ts.map (Token.push n k)) =
      ((readImport start names ts).1.map (Import.push n k),
        (readImport start names ts).2.map (Token.push n k)) := by
  fun_induction readImport start names ts with
  | case1 => rw [List.map_nil, readImport]; rfl
  | case2 names t ts hk =>
    rw [List.map_cons, readImport_string (t := t.push n k) hk, closeImport_push h]
    rfl
  | case3 names t ts hk ih =>
    rw [List.map_cons, readImport_ident (t := t.push n k) hk, ← ih h.tail]
    rfl
  | case4 names t ts hk =>
    rw [List.map_cons, readImport_template (t := t.push n k) hk]
    rfl
  | case5 names t ts hk hm hg =>
    have hnone : enclosed? (t.push n k :: ts.map (Token.push n k)) = none :=
      (enclosed?_eq_none_congr ((moves_push n k).map_bare (t :: ts))).mpr hg
    rw [List.map_cons, readImport_lone (t := t.push n k) hm hnone]
    rfl
  | case6 names t ts hk hm g hg ih =>
    have hgroup : enclosed? (t.push n k :: ts.map (Token.push n k)) = some (g.map (Token.push n k)) := by
      rw [← List.map_cons, enclosed?_map (moves_push n k), hg]
      rfl
    have hlisted : listedNames (g.map (Token.push n k)).inside = listedNames g.inside :=
      listedNames_congr ((moves_push n k).map_bare g.inside)
    have hafter : Parted n g.after := fun u hu => h.tail u ((suffix_of_enclosed? hg).mem hu)
    rw [List.map_cons, readImport_group (t := t.push n k) hm hgroup, hlisted, ← ih hafter]
    rfl
  | case7 names t ts hk hm hs ih =>
    rw [List.map_cons, readImport_mark (t := t.push n k) hk hm, Token.isMark_push,
      Token.isMark_push, if_pos hs, ih h.tail]
  | case8 names t ts hk hm hs =>
    rw [List.map_cons, readImport_mark (t := t.push n k) hk hm, Token.isMark_push,
      Token.isMark_push, if_neg hs]
    rfl

/-- **Tokens that are pushed apart hold the same statements, pushed apart.** -/
theorem importsFrom_push (h : Parted n ts) (k d : Nat) :
    importsFrom d (ts.map (Token.push n k)) = (importsFrom d ts).map (Import.push n k) := by
  fun_induction importsFrom d ts with
  | case1 => rw [List.map_nil, importsFrom_nil]; rfl
  | case2 d t ts ho ih => rw [List.map_cons, importsFrom_opens (t := t.push n k) ho, ih h.tail]
  | case3 d t ts ho hcl ih => rw [List.map_cons, importsFrom_closes (t := t.push n k) hcl, ih h.tail]
  | case4 d t => rw [List.map_cons, List.map_nil, importsFrom_singleton]; rfl
  | case5 d t ho hcl hd f rest hf ih =>
    obtain ⟨rfl, hi⟩ : d = 0 ∧ t.isWord "import".toList = true := by simpa using hd
    rw [List.map_cons, List.map_cons,
      importsFrom_call (t := t.push n k) (f := f.push n k) hi hf, ← List.map_cons, ih h.tail]
  | case6 d t ho hcl hd f rest hf r ih =>
    obtain ⟨rfl, hi⟩ : d = 0 ∧ t.isWord "import".toList = true := by simpa using hd
    have hread : readImport (t.push n k).start [] ((f :: rest).map (Token.push n k)) = _ :=
      readImport_push h.tail k t.start []
    have hleft : Parted n r.2 := fun u hu => h.tail u ((readImport_suffix _ _ _).mem hu)
    rw [List.map_cons] at hread
    rw [List.map_cons, List.map_cons,
      importsFrom_import (t := t.push n k) (f := f.push n k) hi hf, hread, ih hleft, List.map_append]
    congr 1
    cases r.1 <;> rfl
  | case7 d t ts ho hcl hd ih =>
    have hplain : ¬ (d = 0 ∧ t.isWord "import".toList = true) := by simpa using hd
    rw [List.map_cons, importsFrom_plain (t := t.push n k) ho hcl hplain, ih h.tail]

/-! ### Groups that no statement goes on over -/

/-- **Nested tokens put into a group that no statement goes on over leave the statements as they are.** -/
theorem importsFrom_fill {p : Token} (hp : p.isMark '(' = true) {G G' K Z : List Token}
    (hG : Nested G) (hG' : Nested G') {d : Nat} (hK : ∀ t ∈ K, t.start < n)
    (hZ : ∀ t ∈ Z, n < t.stop)
    (h : ∀ s ∈ importsFrom d (K ++ p :: (G ++ Z)), s.stop ≤ n ∨ n ≤ s.start) :
    importsFrom d (K ++ p :: (G' ++ Z)) = importsFrom d (K ++ p :: (G ++ Z)) := by
  cases importsFrom_around hp d K Z with
  | passes ss eq => exact (eq G' hG').trans (eq G hG).symm
  | jumps ss i names a b z mem left eq =>
    obtain ⟨-, hfirst⟩ := eq G hG
    obtain ⟨-, hsecond⟩ := eq G' hG'
    obtain ⟨hsome, hleft⟩ := readImport_names i.start (names ++ listedNames (a ++ (G ++ b)))
      (names ++ listedNames (a ++ (G' ++ b))) z
    -- An attempt that jumps over the place reads nothing: it would begin before it and end after it.
    have hnone : (readImport i.start (names ++ listedNames (a ++ (G ++ b))) z).1 = none := by
      cases hread : (readImport i.start (names ++ listedNames (a ++ (G ++ b))) z).1 with
      | none => rfl
      | some s =>
        have hmem : s ∈ importsFrom d (K ++ p :: (G ++ Z)) := by
          rw [hfirst, hread]
          simp
        obtain ⟨t, ht, hstop⟩ := (ends_readImport hread).stop
        have hstart := readImport_start hread
        have hbefore := hK i mem
        have hbehind := hZ t (left.mem ht)
        rcases h s hmem with hle | hle <;> omega
    rw [hnone, Option.isSome_none, eq_comm, Option.isSome_eq_false_iff, Option.isNone_iff_eq_none]
      at hsome
    rw [hfirst, hsecond, hnone, hsome, hleft]

end Graft.Script
