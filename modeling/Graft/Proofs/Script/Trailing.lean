import Graft.Proofs.Script.ImportWalk
import Graft.Proofs.Script.Property

/-
Tokens behind a script.

* `Trailing R` — nested tokens that end no statement;
* `importsFrom_append` — behind a script they leave its statements as they are;
* `binds_append`, `lists_append` — **and what the script binds and lists**.

Design notes: an attempt to read a statement that runs out of tokens keeps nothing, so it is of no
account that with more tokens it may go on.
-/
namespace Graft.Script

/-- Nested tokens that end no statement. -/
structure Trailing (R : List Token) : Prop where
  nested : Nested R
  -- They do not begin with the semicolon of a statement.
  head : ∀ x ∈ R.head?, x.isMark ';' = false

variable {R : List Token}

/-- An attempt that keeps something, or stops at a token, goes the same way with more tokens behind. -/
theorem readImport_append (hR : Trailing R) {start : Nat} {names : List Text} {ts : List Token}
    (h : (readImport start names ts).2 ≠ [] ∨ (readImport start names ts).1.isSome = true) :
    readImport start names (ts ++ R) =
      ((readImport start names ts).1, (readImport start names ts).2 ++ R) := by
  have hleft : (readImport start names (ts ++ [])).2 = (readImport start names ts).2 ++ [] := by
    rw [List.append_nil, List.append_nil]
  have hlone : Unclosed ts [] R := by
    have hsplice := unclosed_splice hR.nested ts []
    rwa [List.append_nil] at hsplice
  have hchange := readImport_change hlone hleft
    (h.imp_right fun hsome => ⟨by rwa [List.append_nil], hR.head⟩)
  rwa [List.append_nil] at hchange

/-- Tokens behind a script leave its statements as they are. -/
theorem importsFrom_append (hR : Trailing R) (d : Nat) (ts : List Token) :
    ∃ X, importsFrom d (ts ++ R) = importsFrom d ts ++ X := by
  induction hlen : ts.length using Nat.strong_induction_on generalizing d ts with
  | _ n ih =>
  subst hlen
  cases ts with
  | nil => exact ⟨importsFrom d R, by rw [importsFrom_nil]; rfl⟩
  | cons t ts =>
    rw [List.cons_append]
    by_cases ho : t.opens = true
    · rw [importsFrom_opens ho, importsFrom_opens ho]
      exact ih _ (Nat.lt_succ_self _) _ _ rfl
    by_cases hcl : t.closes = true
    · rw [importsFrom_closes hcl, importsFrom_closes hcl]
      exact ih _ (Nat.lt_succ_self _) _ _ rfl
    by_cases hi : d = 0 ∧ t.isWord "import".toList = true
    · obtain ⟨rfl, hi⟩ := hi
      cases ts with
      | nil => exact ⟨importsFrom 0 (t :: R), by rw [importsFrom_singleton]; rfl⟩
      | cons f ts =>
        rw [List.cons_append]
        by_cases hcall : (f.isMark '(' || f.isMark '.') = true
        · rw [importsFrom_call hi hcall, importsFrom_call hi hcall]
          exact ih _ (Nat.lt_succ_self _) _ (f :: ts) rfl
        · rw [importsFrom_import hi hcall, importsFrom_import hi hcall, ← List.cons_append]
          by_cases hkept : (readImport t.start [] (f :: ts)).2 ≠ [] ∨
              (readImport t.start [] (f :: ts)).1.isSome = true
          · rw [readImport_append hR hkept]
            have hshort := readImport_length t.start [] (f :: ts)
            obtain ⟨X, hX⟩ := ih _ (Nat.lt_succ_of_le hshort) 0 (readImport t.start [] (f :: ts)).2 rfl
            exact ⟨X, by rw [hX, List.append_assoc]⟩
          · -- The attempt ran out of tokens.
            obtain ⟨hleft, hnone⟩ := not_or.mp hkept
            rw [not_not.mp hleft, Option.not_isSome_iff_eq_none.mp hnone, importsFrom_nil]
            exact ⟨_, rfl⟩
    · rw [importsFrom_plain ho hcl hi, importsFrom_plain ho hcl hi]
      exact ih _ (Nat.lt_succ_self _) _ _ rfl

/-- What a script binds is bound with tokens behind it. -/
theorem binds_append (hR : Trailing R) {ts : List Token} {name : Text} (h : Binds ts name) :
    Binds (ts ++ R) name := by
  obtain ⟨s, hs, hname⟩ := h
  obtain ⟨X, hX⟩ := importsFrom_append hR 0 ts
  refine ⟨s, ?_, hname⟩
  rw [imports, hX]
  exact List.mem_append_left _ hs

theorem Heads.append {ts : List Token} {d : Descriptor} (h : Heads ts d) (R : List Token) :
    Heads (ts ++ R) d := by
  obtain ⟨a, name, p, Z, rfl, hdeco⟩ := h
  exact ⟨a, name, p, Z ++ R, by simp, hdeco⟩

/-- Tokens behind four others begin no decorator that these do not. -/
theorem headed?_append (hR : Nested R) {a name p brace : Token} {rest : List Token}
    (h : headed? (a :: name :: p :: brace :: rest) = none) :
    headed? (a :: name :: p :: brace :: (rest ++ R)) = none := by
  rw [headed?_cons] at h ⊢
  split at h
  next hmarks =>
    rw [if_pos hmarks]
    cases hdeco : Decorator.ofToken? name with
    | none => rfl
    | some decorator =>
      rw [hdeco, Option.bind_some] at h
      have hnone : enclosed? (brace :: (rest ++ [])) = none := by
        rw [List.append_nil]
        cases hg : enclosed? (brace :: rest) with
        | none => rfl
        | some g =>
          rw [hg] at h
          cases h
      have hsplice := enclosed?_splice_none hR hnone
      rw [List.append_nil] at hsplice
      rw [Option.bind_some, hsplice]
      rfl
  next hmarks => rw [if_neg hmarks]

theorem Unheaded.append (hR : Nested R) {L ts : List Token} (h : Unheaded L ts)
    (hlong : 3 ≤ ts.length) : Unheaded L (ts ++ R) := by
  induction L with
  | nil => trivial
  | cons t L ih =>
    refine ⟨?_, ih h.2⟩
    have hnone := h.1
    rw [← List.append_assoc]
    rcases heq : L ++ ts with _ | ⟨name, _ | ⟨p, _ | ⟨brace, rest⟩⟩⟩
    all_goals have hlength := congrArg List.length heq
    all_goals simp only [List.length_append, List.length_cons, List.length_nil] at hlength
    · omega
    · omega
    · omega
    · rw [heq] at hnone
      exact headed?_append hR hnone

/-- The first descriptor stays the first with tokens behind it. -/
theorem descriptor?_append (hR : Nested R) {ts : List Token} {d : Descriptor}
    (h : descriptor? ts = some d) : descriptor? (ts ++ R) = some d := by
  obtain ⟨L, H, rfl, hheads, hfirst⟩ := descriptor?_eq_some_iff.mp h
  have hlong : 3 ≤ H.length := by
    obtain ⟨a, name, p, Z, rfl, -⟩ := hheads
    simp only [List.length_cons]
    omega
  exact descriptor?_eq_some_iff.mpr
    ⟨L, H ++ R, List.append_assoc _ _ _, hheads.append R, hfirst.append hR hlong⟩

/-- What a script lists is listed with tokens behind it. -/
theorem lists_append (hR : Nested R) {ts : List Token} {key name : Text} (h : Lists ts key name) :
    Lists (ts ++ R) key name := by
  obtain ⟨d, hd, hlists⟩ := h
  exact ⟨d, descriptor?_append hR hd, hlists⟩

end Graft.Script
