import Graft.Proofs.Registration.Effect

/-
Registering several classes, in any order.

* `clauses ts` — the names and the modules of the statements;
* `plan_isOk_iff` — a host is planned for where its descriptor has the list, or may be given it;
* `Tidy.exists_enrolled` — a registration makes its entry, and then its statement as the host with the entry
  needs it;
* `Effect source r u`, `Tidy.exists_effect` — **what one registration does to a tidy host**;
* `patchAll? source rs` — registrations one after another;
* `patchAll_perm` — **in every order they bind and list the same**.

Design notes: a host is seen by what planning reads of it, its clauses and the rosters of its lists.  One
registration changes them in a way that says nothing of other classes, and so a run adds what each of its
requests adds.
-/
namespace Graft.Registration

open Script

/-- The names and the modules of the statements among tokens. -/
def clauses (ts : List Token) : List (List Text × Text) := (imports ts).map fun s => (s.names, s.module)

theorem binds_iff_clauses {ts : List Token} {name : Text} :
    Binds ts name ↔ ∃ c ∈ clauses ts, name ∈ c.1 := by
  simp [Binds, clauses]

variable {source : Text} {r : Request}

/-! ### What is planned -/

/-- A host is planned for where its descriptor has the list, or may be given it. -/
theorem plan_isOk_iff : (∃ es, plan source r = .ok es) ↔
    ∃ P, roster (tokens source) r.role.property = some P := by
  constructor
  · rintro ⟨es, hplan⟩
    obtain ⟨d, list, hd, hlist, -⟩ := plan_eq_ok hplan
    obtain ⟨E, hE⟩ := planList_isOk_iff.mp ⟨list, hlist⟩
    exact ⟨_, by rw [roster_eq hd, hE]; rfl⟩
  · rintro ⟨P, hP⟩
    obtain ⟨d, E, hd, hE, -⟩ := exists_of_roster hP
    obtain ⟨list, hlist⟩ : ∃ list, planList source r d = .ok list := planList_isOk_iff.mpr ⟨E, hE⟩
    refine ⟨planImport source (imports (tokens source)) r ++ list, ?_⟩
    rw [plan]
    simp only [hd, hlist]
    rfl

/-- With the entry made, the same statement is planned, at the same place. -/
theorem Entered.planImport_eq {e : Insertion} (h : Entered source r e) (he : place e ≤ source.length) :
    planImport (e.apply source) (imports (tokens (e.apply source))) r =
      (planImport source (imports (tokens source)) r).map (pushInsertion (place e) e.text.length) := by
  rw [h.imports_eq]
  rcases planImport_cases source (imports (tokens source)) r with
    ⟨⟨s, hs, hname⟩, hnone⟩ | ⟨hnew, s, hlast, hafter⟩ | ⟨hnil, hbefore⟩
  · have hany : (((imports (tokens source)).map (Import.push (place e) e.text.length)).any fun s =>
        s.names.contains r.symbol) = true := by
      rw [List.any_eq_true]
      exact ⟨_, List.mem_map_of_mem hs, by simpa [Import.push] using hname⟩
    rw [hnone, planImport, if_pos hany]
    rfl
  · rw [hafter, planImport_after (s := s.push (place e) e.text.length)]
    · show [_] = [_]
      rw [Import.push]
      simp only [lineEnd_apply he (h.line s hlast)]
      rfl
    · intro s' hs'
      obtain ⟨s, hs, rfl⟩ := List.mem_map.mp hs'
      exact hnew s hs
    · rw [List.getLast?_map, Option.mem_def.mp hlast]
      rfl
  · have hstart : pushInsertion (place e) e.text.length ⟨0, importLine r.symbol r.importPath '\'' ++ ['\n']⟩ =
        ⟨0, importLine r.symbol r.importPath '\'' ++ ['\n']⟩ := by
      have hzero : pushStart (place e) e.text.length 0 = 0 := if_pos h.pos
      rw [pushInsertion]
      show (⟨(pushStart (place e) e.text.length 0 : Nat), _⟩ : Insertion) = _
      rw [hzero]
      rfl
    rw [hbefore, List.map_singleton, hstart, hnil]
    rfl

theorem apply_push_of_lt {n k : Nat} {f : Insertion} (h : place f < n) (t : Text) :
    (pushInsertion n k f).apply t = f.apply t := by
  rw [apply_eq, apply_eq, place_push, pushStart, if_pos h]
  rfl

/-- Of two insertions at different places either may be made first. -/
theorem foldr_ordered_pair {e f : Insertion} (hne : place f ≠ place e) (hf : place f ≤ source.length) :
    (Insertion.ordered [f, e]).foldr Insertion.apply source =
      (pushInsertion (place e) e.text.length f).apply (e.apply source) := by
  rcases Nat.lt_or_gt_of_ne hne with hlt | hlt
  · rw [ordered_eq (List.Perm.refl _) (List.pairwise_pair.mpr hlt), apply_push_of_lt hlt]
    rfl
  · rw [ordered_eq (List.Perm.swap e f []) (List.pairwise_pair.mpr hlt)]
    exact apply_comm hlt hf

/-! ### One registration -/

/-- What a host is like with the class enrolled in its list, and no statement made yet. -/
structure Enrolled (source : Text) (r : Request) (u : Text) : Prop where
  tidy : Tidy u
  -- The clauses are as before.
  clauses_eq : clauses (tokens u) = clauses (tokens source)
  enrolled : ∀ P, roster (tokens source) r.role.property = some P →
    roster (tokens u) r.role.property = some (enroll r.symbol P)
  others : ∀ k, k ≠ r.role.property → roster (tokens u) k = roster (tokens source) k

theorem Entered.enrolled_apply {e : Insertion} (h : Entered source r e) : Enrolled source r (e.apply source) where
  tidy := h.tidy
  clauses_eq := by
    rw [clauses, h.imports_eq, List.map_map]
    rfl
  enrolled := h.enrolled
  others := h.others

/-- A registration makes its entry, and then its statement as the host with the entry needs it. -/
theorem Tidy.exists_enrolled (h : Tidy source) (hs : IsSymbol r.symbol) (hp : IsSpecifier r.importPath)
    {es : List Insertion} (hplan : plan source r = .ok es) : ∃ g, Enrolled source r g ∧
      patched? source r = .ok ((planImport g (imports (tokens g)) r).foldr Insertion.apply g) := by
  obtain ⟨d, list, hd, hlist, hes⟩ := plan_eq_ok hplan
  obtain ⟨hsits, hdistinct⟩ := plan_sits h.closed hs hp (h.hasRoom r.symbol) hd hlist hes
  have hmade := patched?_eq_ok hplan (applyAll_of_fits fun e he => (hsits e he).fits)
  rw [hes] at hmade hsits hdistinct
  have hstatements := planImport_length_le source (imports (tokens source)) r
  rcases planList_eq_ok hlist with ⟨rfl, hlists⟩ | ⟨o, inside, c, entry, run, -, hentry⟩
  · refine ⟨source, ⟨h, rfl, fun P hP => ?_, fun _ _ => rfl⟩, ?_⟩
    · obtain ⟨Q, hQ, hleads⟩ := lists_iff.mp ⟨d, hd, hlists⟩
      obtain rfl : P = Q := Option.some.inj (hP.symm.trans hQ)
      rw [enroll_of_leads hleads, hP]
    · rw [hmade, List.append_nil, ordered_eq (List.Perm.refl _)
        (pairwise_of_length_le_one hstatements)]
  · rw [hentry] at hlist hmade hsits hdistinct
    generalize appendEntry source o inside c entry = e at hlist hmade hsits hdistinct
    have hentered := h.entered hs hd hlist
    have he := (hsits e (by simp)).place_le
    refine ⟨e.apply source, hentered.enrolled_apply, ?_⟩
    rw [hmade, hentered.planImport_eq he]
    generalize planImport source (imports (tokens source)) r = statements at *
    match statements, hstatements with
    | [], _ =>
      rw [List.nil_append, ordered_eq (List.Perm.refl _) (List.pairwise_singleton _ _)]
      rfl
    | [f], _ =>
      have hf := (hsits f (by simp)).place_le
      have hne : place f ≠ place e := by simpa using hdistinct
      exact congrArg Except.ok (foldr_ordered_pair hne hf)

/-- A statement is planned where none binds the class. -/
theorem statement_planned (source : Text) (r : Request) :
    (Binds (tokens source) r.symbol ∧ planImport source (imports (tokens source)) r = []) ∨
      (¬ Binds (tokens source) r.symbol ∧ ∃ f, planImport source (imports (tokens source)) r = [f]) := by
  rcases planImport_cases source (imports (tokens source)) r with hbound | ⟨hnew, s, -, hone⟩ | ⟨hnil, hone⟩
  · exact .inl hbound
  · exact .inr ⟨fun ⟨s, hs, hname⟩ => hnew s hs hname, _, hone⟩
  · refine .inr ⟨fun ⟨s, hs, _⟩ => ?_, _, hone⟩
    rw [hnil] at hs
    cases hs

/-- What one registration does to a host. -/
structure Effect (source : Text) (r : Request) (u : Text) : Prop where
  tidy : Tidy u
  -- A clause for the class is added, if none binds it.
  clauses_iff : ∀ c, c ∈ clauses (tokens u) ↔ c ∈ clauses (tokens source) ∨
    (¬ Binds (tokens source) r.symbol ∧ c = ([r.symbol], r.importPath))
  -- The class is enrolled in the list of its role.
  enrolled : ∀ P, roster (tokens source) r.role.property = some P →
    roster (tokens u) r.role.property = some (enroll r.symbol P)
  -- The other lists are as before.
  others : ∀ k, k ≠ r.role.property → roster (tokens u) k = roster (tokens source) k

/-- **What one registration does to a tidy host.** -/
theorem Tidy.exists_effect (h : Tidy source) (hs : IsSymbol r.symbol) (hp : IsSpecifier r.importPath)
    {P : List (List Token)} (hP : roster (tokens source) r.role.property = some P) :
    ∃ u, patched? source r = .ok u ∧ Effect source r u := by
  obtain ⟨es, hplan⟩ := plan_isOk_iff.mpr ⟨P, hP⟩
  obtain ⟨g, hg, hmade⟩ := h.exists_enrolled hs hp hplan
  refine ⟨_, hmade, ?_⟩
  obtain ⟨d, -, hd, -, -⟩ := exists_of_roster (hg.enrolled P hP)
  have hbinds : Binds (tokens g) r.symbol ↔ Binds (tokens source) r.symbol := by
    rw [binds_iff_clauses, binds_iff_clauses, hg.clauses_eq]
  have heffect {u : Text} (hu : Tidy u) (hroster : ∀ k, roster (tokens u) k = roster (tokens g) k)
      (hclauses : ∀ c, c ∈ clauses (tokens u) ↔ c ∈ clauses (tokens source) ∨
        (¬ Binds (tokens source) r.symbol ∧ c = ([r.symbol], r.importPath))) : Effect source r u :=
    ⟨hu, hclauses, fun P hP => (hroster _).trans (hg.enrolled P hP), fun k hk =>
      (hroster k).trans (hg.others k hk)⟩
  rcases statement_planned g r with ⟨hbound, hnone⟩ | ⟨hnew, f, hplanned⟩
  · rw [hnone]
    refine heffect hg.tidy (fun _ => rfl) fun c => ?_
    rw [List.foldr_nil, hg.clauses_eq]
    exact ⟨.inl, fun hc => hc.resolve_right fun hadd => hadd.1 (hbinds.mp hbound)⟩
  · have hstated := hg.tidy.stated hs hp hd hplanned
    obtain ⟨s, himports, hnames, hmodule⟩ := hstated.imports_eq
    rw [hplanned]
    refine heffect hstated.tidy hstated.roster_eq fun c => ?_
    have hclauses : clauses (tokens (f.apply g)) = clauses (tokens source) ++ [([r.symbol], r.importPath)] := by
      rw [← hg.clauses_eq, clauses, himports, List.map_append, List.map_singleton, hnames, hmodule]
      rfl
    rw [List.foldr_cons, List.foldr_nil, hclauses, List.mem_append, List.mem_singleton,
      and_iff_right fun hb => hnew (hbinds.mpr hb)]

/-! ### What the effect is on names -/

/-- The lists of the roles are different ones. -/
theorem property_inj {a b : Role} (h : a.property = b.property) : a = b := by
  cases a <;> cases b
  · rfl
  · exact absurd h (by decide)
  · exact absurd h (by decide)
  · rfl

variable {u : Text}

/-- A list that there is, or may be, stays one. -/
theorem Effect.exists_roster (h : Effect source r u) {k : Text} {P : List (List Token)}
    (hP : roster (tokens source) k = some P) : ∃ Q, roster (tokens u) k = some Q := by
  by_cases hk : k = r.role.property
  · rw [hk] at hP ⊢
    exact ⟨_, h.enrolled P hP⟩
  · exact ⟨P, (h.others k hk).trans hP⟩

/-- Only a clause for the class is new. -/
theorem Effect.binds_iff (h : Effect source r u) {name : Text} (hne : r.symbol ≠ name) :
    Binds (tokens u) name ↔ Binds (tokens source) name := by
  rw [binds_iff_clauses, binds_iff_clauses]
  constructor
  · rintro ⟨c, hc, hname⟩
    rcases (h.clauses_iff c).mp hc with hc | ⟨-, rfl⟩
    · exact ⟨c, hc, hname⟩
    · exact absurd (List.mem_singleton.mp hname).symm hne
  · rintro ⟨c, hc, hname⟩
    exact ⟨c, (h.clauses_iff c).mpr (.inl hc), hname⟩

/-- The list of the role names the class with what it named, and the other list what it named. -/
theorem Effect.lists_iff (h : Effect source r u) {P : List (List Token)}
    (hP : roster (tokens source) r.role.property = some P) {role : Role} {name : Text} :
    Lists (tokens u) role.property name ↔
      Lists (tokens source) role.property name ∨ (r.role = role ∧ r.symbol = name) := by
  rw [Script.lists_iff, Script.lists_iff]
  by_cases hrole : r.role = role
  · subst hrole
    rw [h.enrolled P hP, hP]
    simp only [Option.some.injEq, exists_eq_left', exists_leads_enroll, true_and]
  · have hk : role.property ≠ r.role.property := fun hk => hrole (property_inj hk.symm)
    rw [h.others _ hk]
    exact ⟨.inl, fun hl => hl.resolve_right fun hadd => hrole hadd.1⟩

/-! ### Registrations one after another -/

/-- A host with requests registered one after another. -/
def patchAll? (source : Text) (rs : List Request) : Except Refusal Text := rs.foldlM patched? source

/-- What a run of registrations does to a tidy host. -/
theorem Tidy.exists_run (h : Tidy source) {rs : List Request} (hs : ∀ r ∈ rs, IsSymbol r.symbol)
    (hp : ∀ r ∈ rs, IsSpecifier r.importPath) (hdistinct : (rs.map Request.symbol).Nodup)
    (hroster : ∀ r ∈ rs, ∃ P, roster (tokens source) r.role.property = some P) :
    ∃ u, patchAll? source rs = .ok u ∧
      (∀ c, c ∈ clauses (tokens u) ↔ c ∈ clauses (tokens source) ∨
        ∃ r ∈ rs, ¬ Binds (tokens source) r.symbol ∧ c = ([r.symbol], r.importPath)) ∧
      ∀ (role : Role) (name : Text), Lists (tokens u) role.property name ↔
        Lists (tokens source) role.property name ∨ ∃ r ∈ rs, r.role = role ∧ r.symbol = name := by
  induction rs generalizing source with
  | nil => exact ⟨source, rfl, by simp, by simp⟩
  | cons r rs ih =>
    obtain ⟨hsr, hs⟩ := List.forall_mem_cons.mp hs
    obtain ⟨hpr, hp⟩ := List.forall_mem_cons.mp hp
    obtain ⟨⟨P, hP⟩, hroster⟩ := List.forall_mem_cons.mp hroster
    rw [List.map_cons, List.nodup_cons] at hdistinct
    obtain ⟨hfresh, hdistinct⟩ := hdistinct
    obtain ⟨g, hg, heffect⟩ := h.exists_effect hsr hpr hP
    have hroster' : ∀ q ∈ rs, ∃ Q, roster (tokens g) q.role.property = some Q := by
      intro q hq
      obtain ⟨Q, hQ⟩ := hroster q hq
      exact heffect.exists_roster hQ
    obtain ⟨u, hu, hclauses, hlists⟩ := ih heffect.tidy hs hp hdistinct hroster'
    have hbinds {q : Request} (hq : q ∈ rs) :
        Binds (tokens g) q.symbol ↔ Binds (tokens source) q.symbol :=
      heffect.binds_iff fun heq => hfresh (heq ▸ List.mem_map_of_mem hq)
    refine ⟨u, ?_, fun c => ?_, fun role name => ?_⟩
    · rw [patchAll?, List.foldlM_cons, hg]
      exact hu
    · have hrest : (∃ q ∈ rs, ¬ Binds (tokens g) q.symbol ∧ c = ([q.symbol], q.importPath)) ↔
          ∃ q ∈ rs, ¬ Binds (tokens source) q.symbol ∧ c = ([q.symbol], q.importPath) :=
        exists_congr fun q => and_congr_right fun hq => and_congr_left' (not_congr (hbinds hq))
      rw [hclauses, heffect.clauses_iff, hrest, List.exists_mem_cons_iff, or_assoc]
    · rw [hlists, heffect.lists_iff hP, List.exists_mem_cons_iff, or_assoc]

/-- **In every order registrations bind and list the same**: what the host binds and lists, and each class, a
clause only where the host binds none. -/
theorem patchAll_perm (h : Tidy source) {rs : List Request} (hs : ∀ r ∈ rs, IsSymbol r.symbol)
    (hp : ∀ r ∈ rs, IsSpecifier r.importPath) (hdistinct : (rs.map Request.symbol).Nodup)
    (hplan : ∀ r ∈ rs, ∃ es, plan source r = .ok es) {order : List Request} (horder : order.Perm rs) :
    ∃ u, patchAll? source order = .ok u ∧
      (∀ c, c ∈ clauses (tokens u) ↔ c ∈ clauses (tokens source) ∨
        ∃ r ∈ rs, ¬ Binds (tokens source) r.symbol ∧ c = ([r.symbol], r.importPath)) ∧
      ∀ (role : Role) (name : Text), Lists (tokens u) role.property name ↔
        Lists (tokens source) role.property name ∨ ∃ r ∈ rs, r.role = role ∧ r.symbol = name := by
  have hmem {q : Request} : q ∈ order ↔ q ∈ rs := horder.mem_iff
  obtain ⟨u, hu, hclauses, hlists⟩ := h.exists_run (fun r hr => hs r (hmem.mp hr))
    (fun r hr => hp r (hmem.mp hr)) ((horder.map _).nodup_iff.mpr hdistinct)
    fun r hr => plan_isOk_iff.mp (hplan r (hmem.mp hr))
  refine ⟨u, hu, fun c => ?_, fun role name => ?_⟩
  · simp only [hclauses, hmem]
  · simp only [hlists, hmem]

theorem lengthyHost_tidy : Tidy lengthyHost := by
  have hopening : (descriptor? (tokens lengthyHost)).map (fun d => d.opening.start) = some 43 := by
    decide +kernel
  have hstops : ∀ s ∈ imports (tokens lengthyHost), s.stop ≤ 43 := by decide +kernel
  refine ⟨lengthyHost_regular, fun d hd s hs => .inl ?_⟩
  rw [Option.mem_def.mp hd] at hopening
  have hstart : d.opening.start = 43 := Option.some.inj hopening
  rw [hstart]
  exact hstops s hs

/-- A class to be imported. -/
def panelRequest : Request :=
  { target := "src/app/app.module.ts".toList, symbol := "P".toList, importPath := "./p".toList,
    role := .composed }

/-- The list for the second class is made first. -/
theorem patchAll_perm_lengthyHost : Tidy lengthyHost ∧
    ∃ u, patchAll? lengthyHost [panelRequest, widgetRequest] = .ok u ∧
      (∀ c, c ∈ clauses (tokens u) ↔ c ∈ clauses (tokens lengthyHost) ∨
        ∃ r ∈ [widgetRequest, panelRequest],
          ¬ Binds (tokens lengthyHost) r.symbol ∧ c = ([r.symbol], r.importPath)) ∧
      ∀ (role : Role) (name : Text), Lists (tokens u) role.property name ↔
        Lists (tokens lengthyHost) role.property name ∨
          ∃ r ∈ [widgetRequest, panelRequest], r.role = role ∧ r.symbol = name := by
  have hplan : ∀ r ∈ [widgetRequest, panelRequest], (plan lengthyHost r).toOption.isSome = true := by
    decide +kernel
  have hsymbol : IsSymbol panelRequest.symbol := ⟨by decide, List.all_eq_true.mp (by decide), by decide⟩
  refine ⟨lengthyHost_tidy, patchAll_perm lengthyHost_tidy ?_ ?_ (by decide) (fun r hr => ?_)
    (List.Perm.swap widgetRequest panelRequest [])⟩
  · exact List.forall_mem_cons.mpr ⟨widgetRequest_symbol, List.forall_mem_singleton.mpr hsymbol⟩
  · exact List.forall_mem_cons.mpr ⟨widgetRequest_specifier, List.forall_mem_singleton.mpr (by decide)⟩
  · cases h : plan lengthyHost r with
    | error m =>
      have hsome := hplan r hr
      rw [h] at hsome
      cases hsome
    | ok es => exact ⟨es, rfl⟩

end Graft.Registration
