import Graft.Proofs.Registration.Host
import Graft.Registration.Wide

/-
A class registered by code points.

* `planWide_fits` — what is planned lies in the host;
* `registerWide_wide` — **one whose name and import path are texts is registered as one of characters**;
* `registerWide_unencodable` — **where something that is to be inserted is no text, no more is told than what
  was planned, and the host is emptied if it can be written**.
-/
namespace Graft.Registration

open Script

variable {w : Workspace} {r : Request} {source : Text}

@[simp] theorem orEmpty_wide (t : Text) : orEmpty t.wide = t := by
  rw [orEmpty, Text.toText_wide]
  rfl

@[simp] theorem bare_wide (r : Request) : r.wide.bare = r := by
  simp [Request.wide, WideRequest.bare]

theorem importLineWide_wide (symbol path : Text) (quote : Char) :
    importLineWide symbol.wide path.wide quote = Text.wide (importLine symbol path quote) := by
  have hquoted : Text.wide (quote :: (path ++ [quote, ';'])) =
      Text.wide [quote] ++ (path.wide ++ Text.wide [quote, ';']) := by
    rw [Text.wide_cons, Text.wide_append]
    rfl
  unfold importLineWide importLine
  simp only [Text.wide_append, List.append_assoc, List.cons_append, hquoted]

theorem additionWide_wide (d : Descriptor) (role : Role) (symbol : Text) :
    ∃ t : Text, additionWide d role symbol.wide = t.wide := by
  rw [additionWide]
  cases d.property? role.property with
  | some _ => exact ⟨symbol, rfl⟩
  | none =>
    refine ⟨role.property ++ ": [".toList ++ symbol ++ [']'], ?_⟩
    simp only [Text.wide_append]
    rfl

/-- What is planned for one of code points goes where it goes for one of characters. -/
theorem planWide_eq_ok {r : WideRequest} {edits : List (Insertion Point)}
    (h : planWide source r = .ok edits) : ∃ d es, planListWide source r d = .ok es ∧
      edits = planImportWide source (imports (tokens source)) r ++ es ∧
        ∃ list, planList source r.bare d = .ok list ∧
          plan source r.bare = .ok (planImport source (imports (tokens source)) r.bare ++ list) ∧
            es.map Insertion.position = list.map Insertion.position := by
  rw [planWide] at h
  cases hd : descriptor? (tokens source) with
  | none =>
    rw [hd] at h
    cases h
  | some d =>
    rw [hd] at h
    dsimp only at h
    cases hlist : planList source r.bare d with
    | error m =>
      rw [planListWide, hlist] at h
      cases h
    | ok list =>
      have hwide : ∃ es, planListWide source r d = .ok es ∧
          es.map Insertion.position = list.map Insertion.position := by
        rw [planListWide, hlist]
        refine ⟨_, rfl, ?_⟩
        rw [List.map_map]
        rfl
      obtain ⟨es, hes, hpositions⟩ := hwide
      rw [hes] at h
      refine ⟨d, es, hes, (Except.ok.inj h).symm, list, hlist, ?_, hpositions⟩
      rw [plan, hd]
      dsimp only
      rw [hlist]
      rfl

/-- What is planned lies in the host. -/
theorem planWide_fits {r : WideRequest} {edits : List (Insertion Point)}
    (h : planWide source r = .ok edits) : ∀ e ∈ edits, Insertion.fits source.length e = true := by
  obtain ⟨d, es, -, rfl, list, -, hplan, hpositions⟩ := planWide_eq_ok h
  intro e he
  have hall := plan_fits hplan
  have hsame : e.position ∈
      (planImport source (imports (tokens source)) r.bare ++ list).map Insertion.position := by
    rw [List.map_append, ← hpositions, List.mem_append]
    rcases List.mem_append.mp he with he | he
    · rw [planImportWide] at he
      obtain ⟨e', he', rfl⟩ := List.mem_map.mp he
      exact .inl (List.mem_map_of_mem he')
    · exact .inr (List.mem_map_of_mem he)
  obtain ⟨e', he', hposition⟩ := List.mem_map.mp hsame
  have hfits := hall e' he'
  rwa [Insertion.fits, hposition] at hfits

/-- What is planned for texts are texts. -/
theorem planWide_wide {edits : List (Insertion Point)} (h : planWide source r.wide = .ok edits) :
    ∀ e ∈ edits, ∃ t : Text, e.text = t.wide := by
  obtain ⟨d, es, hes, rfl, list, hlist, -⟩ := planWide_eq_ok h
  intro e he
  rcases List.mem_append.mp he with he | he
  · rw [planImportWide] at he
    obtain ⟨e', -, rfl⟩ := List.mem_map.mp he
    have hline (quote : Char) : importLineWide r.wide.symbol r.wide.importPath quote =
        Text.wide (importLine r.symbol r.importPath quote) := importLineWide_wide _ _ _
    dsimp only
    split
    next s _ =>
      rw [hline]
      exact ⟨'\n' :: importLine r.symbol r.importPath s.quote, rfl⟩
    next =>
      rw [hline]
      exact ⟨importLine r.symbol r.importPath '\'' ++ ['\n'], (Text.wide_append _ ['\n']).symm⟩
  · rw [planListWide] at hes
    rw [hlist] at hes
    rw [← Except.ok.inj hes] at he
    obtain ⟨e', -, rfl⟩ := List.mem_map.mp he
    obtain ⟨t, ht⟩ := additionWide_wide d r.wide.role r.symbol
    have ht' : additionWide d r.wide.role r.wide.symbol = t.wide := ht
    dsimp only
    rw [ht', ← Text.wide_append]
    exact ⟨_, rfl⟩

/-- **A class whose name and import path are texts is registered as it is as one of characters.** -/
theorem registerWide_wide (w : Workspace) (r : Request) :
    registerWide w r.wide = (register w r).wide := by
  rw [registerWide, bare_wide]
  cases w.read r.wide.target with
  | error e => rfl
  | ok source =>
    dsimp only
    cases hplan : planWide source r.wide with
    | error m => rfl
    | ok edits =>
      dsimp only
      rw [if_pos]
      refine List.all_eq_true.mpr fun e he => ?_
      obtain ⟨t, ht⟩ := planWide_wide hplan e he
      rw [ht, Text.toText_wide]
      rfl

/-! ### What is no text -/

theorem mem_apply {p : Point} {e : Insertion Point} {t : Wide} : p ∈ e.apply t ↔ p ∈ e.text ∨ p ∈ t := by
  conv_rhs => rw [← List.take_append_drop e.position.toNat t]
  simp only [Insertion.apply, List.mem_append]
  tauto

/-- What is inserted is in what comes of it. -/
theorem mem_foldr_apply {p : Point} {es : List (Insertion Point)} {t : Wide} {e : Insertion Point}
    (he : e ∈ es) (hp : p ∈ e.text) : p ∈ es.foldr Insertion.apply t := by
  induction es with
  | nil => cases he
  | cons e' es ih =>
    rw [List.foldr_cons, mem_apply]
    rcases List.mem_cons.mp he with rfl | he
    · exact .inl hp
    · exact .inr (ih he)

/-- A wide text of which every code point is a character is a text. -/
theorem exists_eq_wide {t : Wide} (h : ∀ p ∈ t, ∃ c, p = .char c) : ∃ u : Text, t = u.wide := by
  induction t with
  | nil => exact ⟨[], rfl⟩
  | cons p ps ih =>
    obtain ⟨⟨c, rfl⟩, hps⟩ := List.forall_mem_cons.mp h
    obtain ⟨u, rfl⟩ := ih hps
    exact ⟨c :: u, rfl⟩

/-- **Where something that is to be inserted is no text, no more is told than what was planned, and the host
is emptied if it can be written.** -/
theorem registerWide_unencodable {r : WideRequest} {edits : List (Insertion Point)}
    (hread : w.read r.target = .ok source) (hplan : planWide source r = .ok edits)
    (hwide : ∃ e ∈ edits, ∀ t : Text, e.text ≠ t.wide) :
    let planned := plannedEvent r.target r.symbol r.role edits
    (∃ u after, (∃ new, w.write r.target [] = (.ok new, after)) ∧
      registerWide w r = ⟨.error (.fault (.unencodable u)), [planned], after⟩) ∨
    ∃ e, w.write r.target [] = (.error (.path e), w) ∧
      registerWide w r = ⟨.error (.unwritten e), [planned], w⟩ := by
  obtain ⟨e, he, hno⟩ := hwide
  have htold : registerWide w r = insertWide w r source edits := by
    rw [registerWide, hread]
    dsimp only
    rw [hplan]
    dsimp only
    rw [if_neg]
    intro hall
    have htext := List.all_eq_true.mp hall e he
    cases ht : Wide.toText e.text with
    | ok t => exact hno t (Wide.toText_eq_ok_iff.mp ht)
    | error u =>
      rw [ht] at htext
      cases htext
  have hmade : Insertion.applyAll source.wide edits =
      .ok ((Insertion.ordered edits).foldr Insertion.apply source.wide) := by
    have hnone : edits.find? (fun e => !Insertion.fits source.wide.length e) = none := by
      rw [List.find?_eq_none]
      intro e he
      rw [Text.wide, List.length_map, planWide_fits hplan e he]
      simp
    rw [Insertion.applyAll, hnone]
  obtain ⟨u, hu⟩ : ∃ u, Wide.toText ((Insertion.ordered edits).foldr Insertion.apply source.wide) =
      .error u := by
    cases ht : Wide.toText ((Insertion.ordered edits).foldr Insertion.apply source.wide) with
    | error u => exact ⟨u, rfl⟩
    | ok t =>
      obtain ⟨t', ht'⟩ := exists_eq_wide (t := e.text) fun p hp => by
        have hin : e ∈ Insertion.ordered edits := (List.mergeSort_perm edits _).mem_iff.mpr he
        have hmem := mem_foldr_apply (t := source.wide) hin hp
        rw [Wide.toText_eq_ok_iff.mp ht] at hmem
        obtain ⟨c, -, rfl⟩ := List.mem_map.mp hmem
        exact ⟨c, rfl⟩
      exact absurd ht' (hno t')
  rw [htold, insertWide, hmade]
  dsimp only
  rw [Workspace.writeWide, hu]
  rcases write_of_read hread [] with ⟨new, after, hwrite⟩ | ⟨e, hwrite⟩
  · exact .inl ⟨u, after, ⟨new, hwrite⟩, by rw [hwrite]⟩
  · exact .inr ⟨e, hwrite, by rw [hwrite]⟩

end Graft.Registration
