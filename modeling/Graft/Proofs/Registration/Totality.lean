import Graft.Proofs.Registration.Preservation
import Graft.Proofs.Script.IndexedReading

/-
Planning a registration, whatever the host.

* `exists_group_of_opens` — every bracket that opens in a descriptor begins a group there;
* `planList_eq_error` — so a list that is found has an end;
* `planAt source r` — the plan, with every token looked up by its index;
* `planAt_eq` — **no look-up goes wrong, and the plan is the one that is made of lists**;
* `plan_fits` — what is planned lies in the host;
* `plan_total` — **a plan is made of any host, or it is said what the host lacks**.

Design notes: by index a list is followed through all tokens of the host, while the reader of lists stays
in its entry.  That both find the same end is where nesting comes in: an entry of a nested object is
nested, so the group that begins in it ends in it.
-/
namespace Graft.Registration

open Script

/-! ### Brackets in a descriptor -/

section
variable {ts : List Token} {d : Descriptor} {o : Token}

theorem nested_of_descriptor? (h : descriptor? ts = some d) : Nested d.inside := by
  obtain ⟨L, R, -, ⟨a, name, p, Z, -, hdecorates⟩, -⟩ := descriptor?_eq_some_iff.mp h
  exact hdecorates.nested

/-- **Every bracket that opens in a descriptor begins a group there.** -/
theorem exists_group_of_opens (h : descriptor? ts = some d) {A B : List Token}
    (hinside : d.inside = A ++ o :: B) (ho : o.opens = true) : ∃ g, enclosed? (o :: B) = some g := by
  have hnested := nested_of_descriptor? h
  rw [hinside] at hnested
  exact exists_enclosed?_of_nested hnested ho

theorem opens_of_bracket (h : o.isMark '[' = true) : o.opens = true := by
  have hclose : o.closer? = some ']' := by
    rw [Token.closer?, if_neg (not_isMark_of_isMark h (by decide)), if_pos h]
  exact opens_of_closer? hclose

/-- A list under a key of a nested object ends in its entry, which is nested too. -/
theorem exists_group_of_property? (hnested : Nested d.inside) {key : Text} {e rest : List Token}
    (h : d.property? key = some e) (he : e.drop 2 = o :: rest) (ho : o.isMark '[' = true) :
    ∃ g, enclosed? (o :: rest) = some g := by
  obtain ⟨hkey, E, F, hentries, -⟩ := property?_eq_some_iff.mp h
  obtain ⟨k, m, tail, rfl, -, -⟩ := entryKey?_eq_some hkey
  obtain rfl : tail = o :: rest := he
  have hmem : k :: m :: o :: rest ∈ entries d.inside := by
    rw [hentries]
    simp
  obtain ⟨X, Y, -, hentry⟩ := exists_of_mem_entries hmem
  exact exists_enclosed?_of_nested (A := [k, m]) (hentry hnested) (opens_of_bracket ho)

/-- Of what is said to be missing, the end of a list never is. -/
theorem planList_eq_error (hnested : Nested d.inside) {source : Text} {r : Request} {m : Mismatch}
    (h : planList source r d = .error m) : m.target = r.target ∧ ∀ p, m.lack ≠ .listEnd p := by
  rw [planList] at h
  split at h
  next e hproperty =>
    unfold planEntry at h
    split at h
    next =>
      obtain rfl := Except.error.inj h
      exact ⟨rfl, fun _ => Lack.noConfusion⟩
    next o rest hvalue =>
      split at h
      next hmark =>
        obtain ⟨g, hg⟩ := exists_group_of_property? hnested hproperty hvalue hmark
        rw [hg] at h
        dsimp only at h
        split at h
        · cases h
        · cases h
      next =>
        obtain rfl := Except.error.inj h
        exact ⟨rfl, fun _ => Lack.noConfusion⟩
  next =>
    split at h
    next => cases h
    next =>
      obtain rfl := Except.error.inj h
      exact ⟨rfl, fun _ => Lack.noConfusion⟩

end

/-! ### The plan by index -/

/-- A new last entry of the list between the brackets at two indices. -/
def appendEntryAt (source : Text) (ts : List Token) (opening closing : Nat) (entry : Text) :
    Except Nat Insertion := do
  let spans ← spansAt ts opening closing
  match spans.getLast? with
  | none =>
    let c ← lookUp ts closing
    return ⟨c.start, entry⟩
  | some s =>
    let last ← lookUp ts s.2
    let o ← lookUp ts opening
    if (slice source o.stop last.stop).contains '\n' then
      let first ← lookUp ts s.1
      return ⟨last.stop, [',', '\n'] ++ indentation source first.start ++ entry⟩
    else return ⟨last.stop, [',', ' '] ++ entry⟩

/-- The entry that the list at an index lacks, if there is a list. -/
def planEntryAt (source : Text) (r : Request) (ts : List Token) (i : Nat) :
    Except Nat (Except Mismatch (List Insertion)) := do
  let value ← lookUp ts i
  if value.isMark '[' then
    match ← closingAt ts i with
    | none => return .error ⟨r.target, .listEnd r.role.property⟩
    | some closing =>
      let spans ← spansAt ts i closing
      let firsts ← spans.mapM fun s => lookUp ts s.1
      if firsts.any fun t => t.isWord r.symbol then return .ok []
      else
        let e ← appendEntryAt source ts i closing r.symbol
        return .ok [e]
  else return .error ⟨r.target, .listValue r.role.property⟩

def planListAt (source : Text) (r : Request) (ts : List Token) (a : DescriptorAt) :
    Except Nat (Except Mismatch (List Insertion)) :=
  match a.property? r.role.property with
  | some s => planEntryAt source r ts (s.1 + 2)
  | none =>
    match a.decorator with
    | .ngModule => do
      let e ← appendEntryAt source ts a.opening a.closing
        (r.role.property ++ ": [".toList ++ r.symbol ++ [']'])
      return .ok [e]
    | .component => .ok (.error ⟨r.target, .list a.decorator r.role.property⟩)

/-- The insertions that register a class in a host, with every token looked up by its index. -/
def planAt (source : Text) (r : Request) : Except Nat (Except Mismatch (List Insertion)) := do
  let ts := tokens source
  match ← descriptorFrom ts 0 with
  | none => return .error ⟨r.target, .descriptor⟩
  | some a =>
    let statements ← importsAt ts 0 0
    let list ← planListAt source r ts a
    return list.map fun es => planImport source statements r ++ es

section
variable {source : Text} {r : Request} {ts inside after : List Token} {o c : Token} {i : Nat}

theorem appendEntryAt_eq (ho : ts.drop i = o :: (inside ++ c :: after)) (entry : Text) :
    appendEntryAt source ts i (i + 1 + inside.length) entry =
      .ok (appendEntry source o inside c entry) := by
  have hinside := drop_succ_of_drop ho
  have hc := drop_append_of_drop hinside
  have hclose := Nat.le_of_lt (lt_of_drop hc)
  obtain ⟨spans, hspans, hmap, hall⟩ := exists_spansAt hinside
  rw [appendEntryAt, hspans, ok_bind, appendEntry, ← hmap, List.getLast?_map]
  cases hlast : spans.getLast? with
  | none =>
    simp only [lookUp_of_drop hc, ok_bind]
    rfl
  | some s =>
    have hs := hall s (List.mem_of_getLast? hlast)
    obtain ⟨first, rest, hcut⟩ := List.exists_cons_of_ne_nil (cut_ne_nil hs hclose)
    have hfirst := lookUp_first hs hclose hcut
    have hend : cut ts s = (first :: rest).dropLast ++ [(first :: rest).getLast (by simp)] := by
      rw [hcut, List.dropLast_concat_getLast]
    simp only [lookUp_last hs hclose hend, lookUp_of_drop ho, ok_bind, Option.map_some, hcut, hfirst]
    split <;> rfl

/-! ### No look-up goes wrong -/

/-- A list is followed to the same end through all tokens and in the tokens of its entry alone. -/
theorem planEntryAt_eq {rest : List Token} (h : ts.drop i = o :: (rest ++ after))
    (hend : o.isMark '[' = true → ∃ g, enclosed? (o :: rest) = some g) (source : Text) (r : Request) :
    planEntryAt source r ts i = .ok (planEntry source r (o :: rest)) := by
  rw [planEntryAt, lookUp_of_drop h, ok_bind, planEntry]
  by_cases ho : o.isMark '[' = true
  swap
  · rw [if_neg ho, if_neg ho]
    rfl
  obtain ⟨g, hg⟩ := hend ho
  obtain ⟨c, hc, hrest, -, -⟩ := enclosed?_eq_some_iff.mp hg
  have htokens : ts.drop i = o :: (g.inside ++ g.closing :: (g.after ++ after)) := by
    rw [h, hrest, List.append_assoc]
    rfl
  have hinside := drop_succ_of_drop htokens
  have hclose := Nat.le_of_lt (lt_of_drop (drop_append_of_drop hinside))
  obtain ⟨spans, hspans, hmap, hall⟩ := exists_spansAt hinside
  have hfirsts : spans.mapM (fun s => lookUp ts s.1) =
      .ok (spans.map fun s => (cut ts s).headD o) := by
    refine mapM_eq_ok fun s hs => ?_
    obtain ⟨k, e, hcut⟩ := List.exists_cons_of_ne_nil (cut_ne_nil (hall s hs) hclose)
    rw [lookUp_first (hall s hs) hclose hcut, hcut]
    rfl
  have hany : ((spans.map fun s => (cut ts s).headD o).any fun t => t.isWord r.symbol) =
      (entries g.inside).any fun e => e.head?.any fun t => t.isWord r.symbol := by
    rw [← hmap, List.any_map, List.any_map, Bool.eq_iff_iff, List.any_eq_true, List.any_eq_true]
    refine exists_congr fun s => and_congr_right fun hs => ?_
    obtain ⟨k, e, hcut⟩ := List.exists_cons_of_ne_nil (cut_ne_nil (hall s hs) hclose)
    show ((cut ts s).headD o).isWord r.symbol = true ↔
      ((cut ts s).head?.any fun t => t.isWord r.symbol) = true
    rw [hcut]
    exact Iff.rfl
  rw [if_pos ho, if_pos ho, closingAt_eq h hc, enclosed?_append hg, ok_bind, hg]
  simp only [Option.map_some, hspans, ok_bind, hfirsts, hany, appendEntryAt_eq htokens]
  split <;> rfl

/-- Behind an entry of an object stands a comma or the brace that ends the object. -/
theorem exists_behind {a : DescriptorAt} {d : Descriptor} (h : Denotes ts a d) {s : Nat × Nat}
    (hs : IsSpan ts a.closing s) : ∃ t more, ts.drop (s.2 + 1) = t :: more ∧ ¬ t.isMark '[' = true := by
  rcases hs.next with hend | ⟨t, ht, hcomma⟩
  · obtain ⟨after, hclosing⟩ := h.drop_closing
    rw [← hend] at hclosing
    exact ⟨_, _, hclosing, not_isMark_of_isMark h.brace (by decide)⟩
  · rw [← List.head?_drop] at ht
    obtain ⟨more, hdrop⟩ := List.head?_eq_some_iff.mp ht
    exact ⟨t, more, hdrop, not_isMark_of_isMark hcomma (by decide)⟩

theorem planListAt_eq {a : DescriptorAt} {d : Descriptor} (h : Denotes ts a d) (source : Text)
    (r : Request) : planListAt source r ts a = .ok (planList source r d) := by
  obtain ⟨after, hobject⟩ := h.tokens
  rw [planListAt, planList]
  rcases h.property? r.role.property with ⟨hd, ha⟩ | ⟨s, ha, hd, hs⟩
  · rw [ha, hd, h.decorator]
    cases d.decorator with
    | ngModule =>
      simp only [h.closing, appendEntryAt_eq hobject, ok_bind]
      rfl
    | component => rfl
  · rw [ha, hd]
    show planEntryAt source r ts (s.1 + 2) = .ok (planEntry source r ((cut ts s).drop 2))
    obtain ⟨hkey, -⟩ := property?_eq_some_iff.mp hd
    obtain ⟨k, m, tail, hcut, -, -⟩ := entryKey?_eq_some hkey
    obtain ⟨afterClosing, hclosing⟩ := h.drop_closing
    have hdrop := drop_cut hs (Nat.le_of_lt (lt_of_drop hclosing))
    rw [hcut, List.cons_append, List.cons_append] at hdrop
    have hvalue : ts.drop (s.1 + 2) = tail ++ ts.drop (s.2 + 1) :=
      drop_succ_of_drop (drop_succ_of_drop hdrop)
    rw [hcut]
    show _ = Except.ok (planEntry source r tail)
    cases tail with
    | nil =>
      obtain ⟨t, more, hbehind, hmark⟩ := exists_behind h hs
      rw [hbehind, List.nil_append] at hvalue
      rw [planEntryAt, lookUp_of_drop hvalue, ok_bind, if_neg hmark]
      rfl
    | cons o rest =>
      have he : (cut ts s).drop 2 = o :: rest := by
        rw [hcut]
        rfl
      exact planEntryAt_eq hvalue (exists_group_of_property? h.nested hd he) source r

end

theorem text_ne_nil_of_mem_tokens {source : Text} {t : Token} (h : t ∈ tokens source) :
    t.text ≠ [] := by
  have hlt := start_lt_stop h
  rw [Token.stop] at hlt
  exact List.length_pos_iff.mp (by omega)

/-- **No look-up goes wrong, and the plan is the one that is made of lists.** -/
theorem planAt_eq (source : Text) (r : Request) : planAt source r = .ok (plan source r) := by
  obtain ⟨o, hread, hrel⟩ := exists_descriptorFrom (List.drop_zero (l := tokens source))
  rw [planAt, plan, hread, ok_bind]
  cases hd : descriptor? (tokens source) with
  | none =>
    rw [hd] at hrel
    cases hrel
    rfl
  | some d =>
    rw [hd] at hrel
    cases hrel with
    | some h =>
      simp only [importsAt_zero fun t => text_ne_nil_of_mem_tokens, planListAt_eq h, ok_bind]
      rfl

/-! ### Places in the host -/

section
variable {source : Text} {r : Request} {inside : List Token} {o c : Token}

/-- A new last entry lies in the host, behind the last entry or before the closing bracket. -/
theorem appendEntry_fits (hc : c ∈ tokens source) (hinside : ∀ t ∈ inside, t ∈ tokens source)
    (o : Token) (entry : Text) :
    Insertion.fits source.length (appendEntry source o inside c entry) = true := by
  rcases List.eq_nil_or_concat (entries inside) with hnil | ⟨E, e, hE⟩
  · rw [appendEntry_nil hnil]
    exact fits_of_le ((Nat.le_of_lt (start_lt_stop hc)).trans (stop_le_length hc)) _
  · rw [List.concat_eq_append] at hE
    obtain ⟨hne, X, Y, hXY, -, -⟩ := exists_last_entry hE
    obtain ⟨e, last, rfl⟩ := (List.eq_nil_or_concat e).resolve_left hne
    rw [List.concat_eq_append] at hE hXY
    obtain ⟨lead, -, -, happend⟩ := appendEntry_concat hE o c entry
    have hlast : last ∈ tokens source := hinside last (by
      rw [hXY]
      simp)
    rw [happend]
    exact fits_of_le (stop_le_length hlast) _

/-- **What is planned lies in the host.** -/
theorem plan_fits {es : List Insertion} (h : plan source r = .ok es) :
    ∀ e ∈ es, Insertion.fits source.length e = true := by
  obtain ⟨d, list, hd, hlist, rfl⟩ := plan_eq_ok h
  intro e he
  rcases List.mem_append.mp he with he | he
  · exact statement_fits e he
  rcases planList_eq_ok hlist with ⟨rfl, -⟩ | ⟨o, inside, c, entry, run, htarget, rfl⟩
  · cases he
  obtain rfl := List.mem_singleton.mp he
  obtain ⟨before, after, hobject⟩ := exists_group_of_descriptor? hd
  obtain ⟨E, hE⟩ := planList_isOk_iff.mp ⟨_, hlist⟩
  obtain ⟨before', after', hgroup, -⟩ := htarget.exists_group hE hobject
  refine appendEntry_fits ?_ (fun t ht => ?_) o entry
  · rw [hgroup.eq]
    simp
  · rw [hgroup.eq]
    simp [ht]

theorem plan_length_le {es : List Insertion} (h : plan source r = .ok es) : es.length ≤ 2 := by
  obtain ⟨d, list, -, hlist, rfl⟩ := plan_eq_ok h
  rw [List.length_append]
  exact Nat.add_le_add (planImport_length_le source _ r) (planList_length_le hlist)

theorem plan_eq_error {m : Mismatch} (h : plan source r = .error m) :
    m.target = r.target ∧ ∀ p, m.lack ≠ .listEnd p := by
  rw [plan] at h
  cases hd : descriptor? (tokens source) with
  | none =>
    simp only [hd] at h
    obtain rfl := Except.error.inj h
    exact ⟨rfl, fun _ => Lack.noConfusion⟩
  | some d =>
    simp only [hd] at h
    cases hlist : planList source r d with
    | ok list =>
      rw [hlist] at h
      cases h
    | error m' =>
      rw [hlist] at h
      obtain rfl := Except.error.inj h
      exact planList_eq_error (nested_of_descriptor? hd) hlist

end

/-- **A plan is made of any host, or it is said what the host lacks.**  No token is looked up where there is
none.  Every bracket that opens in the descriptor begins a group there, so it is never the end of a list
that is missing.  A plan has two insertions at most, each lies in the host, and they are made. -/
theorem plan_total (source : Text) (r : Request) :
    planAt source r = .ok (plan source r) ∧
      (∀ d, descriptor? (tokens source) = some d → ∀ A o B, d.inside = A ++ o :: B →
        o.opens = true → ∃ g, enclosed? (o :: B) = some g) ∧
      ((∃ m, plan source r = .error m ∧ m.target = r.target ∧ ∀ p, m.lack ≠ .listEnd p) ∨
        ∃ es, plan source r = .ok es ∧ es.length ≤ 2 ∧
          (∀ e ∈ es, 0 ≤ e.position ∧ e.position ≤ source.length) ∧
          ∃ u, Insertion.applyAll source es = .ok u) := by
  refine ⟨planAt_eq source r, fun d hd A o B => exists_group_of_opens hd, ?_⟩
  cases hplan : plan source r with
  | error m => exact .inl ⟨m, rfl, plan_eq_error hplan⟩
  | ok es =>
    have hfits := plan_fits hplan
    refine .inr ⟨es, rfl, plan_length_le hplan, fun e he => ?_, _, applyAll_of_fits hfits⟩
    simpa [Insertion.fits] using hfits e he

/-- A host that ends in a list. -/
def cutHost : Text := "@NgModule(\x7b declarations: [A, (".toList

/-- A host with a key without a value, a brace that closes nothing, and an import without an end. -/
def raggedHost : Text :=
  "@NgModule(\x7b declarations: [A, f(b)], x: \x7d) \x7d import \x7b X \x7d from './y".toList

theorem plan_total_raggedHost :
    planAt cutHost widgetRequest = .ok (.error ⟨widgetRequest.target, .descriptor⟩) ∧
      ∃ es, planAt raggedHost widgetRequest = .ok (.ok es) ∧ es.length = 2 ∧
        (∀ e ∈ es, 0 ≤ e.position ∧ e.position ≤ raggedHost.length) ∧
        ∃ u, Insertion.applyAll raggedHost es = .ok u := by
  have hcut : plan cutHost widgetRequest = .error ⟨widgetRequest.target, .descriptor⟩ := by
    decide +kernel
  have hplan : (plan raggedHost widgetRequest).toOption.map List.length = some 2 := by decide +kernel
  obtain ⟨hcutAt, -, -⟩ := plan_total cutHost widgetRequest
  rw [hcut] at hcutAt
  refine ⟨hcutAt, ?_⟩
  obtain ⟨hat, -, ⟨m, hm, -⟩ | ⟨es, hes, -, hplaces, hmade⟩⟩ := plan_total raggedHost widgetRequest
  · rw [hm] at hplan
    cases hplan
  · rw [hes] at hplan hat
    exact ⟨es, hat, Option.some.inj hplan, hplaces, hmade⟩

end Graft.Registration
