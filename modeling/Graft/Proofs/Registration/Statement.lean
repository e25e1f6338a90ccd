import Graft.Proofs.Name.Identifier
import Graft.Proofs.Registration.Preservation

/-
A planned import statement, read on its own.

* `ReadsAs line name module` — a line that holds one statement, for one name of one module;
* `closesString_of_passString` — a string that something other than a newline follows is closed;
* `readsAs_importLine_iff` — **a written statement reads as it is meant exactly when the name is not
  `type` and the quote closes the path, and does not do so before its end**;
* `trim_planImport` — the line of a planned statement.

Design notes: the path is put between quotes as it is.  What the string takes of it, and what is left over
to be read as something else, is decided by the reader of strings alone.
-/
namespace Graft.Registration

open Script

/-- A line that holds one import statement, for one name of one module. -/
def ReadsAs (line name module : Text) : Prop :=
  ∃ i, imports (tokens line) = [i] ∧ i.names = [name] ∧ i.module = module

/-! ### Strings -/

/-- A string that something other than a newline follows is closed. -/
theorem closesString_of_passString {q : Char} (hq : isQuote q = true) {t : Text}
    (hrest : (passString q t).2 ≠ []) (hline : (passString q t).2.head? ≠ some '\n') :
    closesString q (passString q t).1 = true := by
  have hback : q ≠ '\\' := by
    rintro rfl
    cases hq
  fun_induction passString q t with
  | case1 => exact absurd rfl hrest
  | case2 c cs ih => exact ih hrest hline
  | case3 cs hesc =>
    show closesString q [q] = true
    rw [closesString]
    · simp
    · exact fun h => absurd h hback
    · exact fun _ _ h => absurd h hback
  | case4 cs hne hesc => exact absurd rfl hline
  | case5 c cs hesc hne hnl ih =>
    show closesString q (c :: (passString q cs).1) = true
    have hc : c ≠ '\\' := by
      rintro rfl
      cases cs with
      | nil => exact hrest rfl
      | cons d ds => exact hesc d ds rfl rfl
    rw [closesString]
    · rw [if_neg hne, ih hrest hline, Bool.and_true, bne_iff_ne]
      exact hnl
    · exact fun h => absurd h hc
    · exact fun _ _ h => absurd h hc

/-- A quote that closes a path leaves what follows it. -/
theorem passString_path {q : Char} {p : Text} (h : closesString q (p ++ [q]) = true) :
    passString q (p ++ [q, ';']) = (p ++ [q], [';']) := by
  have htext : p ++ [q, ';'] = (p ++ [q]) ++ [';'] := by
    rw [List.append_assoc]
    rfl
  rw [htext, passString_of_closes h]

/-- A string takes all of a path and the quote behind it exactly when that quote closes the path. -/
theorem dropLast_passString_iff {q : Char} (hq : isQuote q = true) (p : Text) :
    (passString q (p ++ [q, ';'])).1.dropLast = p ↔ closesString q (p ++ [q]) = true := by
  constructor
  · intro hp
    have happend := passString_append q (p ++ [q, ';'])
    have hcloses := closesString_of_passString hq (t := p ++ [q, ';'])
    generalize (passString q (p ++ [q, ';'])).1 = x at hp happend hcloses
    generalize (passString q (p ++ [q, ';'])).2 = rest at happend hcloses
    rcases List.eq_nil_or_concat x with rfl | ⟨init, c, rfl⟩
    · -- A string that takes nothing is not closed, but then its quote is what follows.
      subst hp
      obtain rfl : rest = [q, ';'] := happend
      have hnewline : q ≠ '\n' := by
        rintro rfl
        cases hq
      cases hcloses (List.cons_ne_nil _ _) (by simpa using hnewline)
    · rw [List.concat_eq_append, List.dropLast_concat] at hp
      subst hp
      rw [List.concat_eq_append, List.append_assoc] at happend
      obtain ⟨rfl, rfl⟩ := List.cons.inj (List.append_cancel_left happend)
      rw [← List.concat_eq_append]
      exact hcloses (List.cons_ne_nil _ _) (by decide)
  · intro hcloses
    rw [passString_path hcloses, List.dropLast_concat]

/-! ### Written statements -/

variable {s p : Text} {q : Char}

/-- **A written statement reads as it is meant exactly when the name is not `type` and the quote closes
the path, and does not do so before its end.** -/
theorem readsAs_importLine_iff (hs : IsIdentifier s) (hq : isQuote q = true) :
    ReadsAs (importLine s p q) s p ↔ s ≠ "type".toList ∧ closesString q (p ++ [q]) = true := by
  have hpieces : pieces (importLine s p q) = importHead s ++
      .token .string (q :: (passString q (p ++ [q, ';'])).1) ::
        pieces (passString q (p ++ [q, ';'])).2 := by
    have hline := importLine_append s p q []
    rw [List.append_nil] at hline
    rw [hline, pieces_importHead hs.nonempty hs.chars, pieces_cons, firstPiece_quote hq]
    rfl
  -- The first statement that is read has the name and the module in question, whatever follows.
  obtain ⟨i, k, hread, hnames, hmodule, hclosed⟩ : ∃ i k,
      imports (tokens (importLine s p q)) = i :: k ∧
      i.names = (if s = "type".toList then [] else [s]) ∧
      i.module = (passString q (p ++ [q, ';'])).1.dropLast ∧
      ((passString q (p ++ [q, ';'])).2 = [';'] → k = []) := by
    rw [tokens, hpieces]
    simp only [importHead, List.cons_append, List.nil_append, tokensFrom]
    rw [imports_clause (by simp [Token.isWord]) rfl rfl rfl (by simp [Token.isWord]) rfl]
    refine ⟨_, _, rfl, ?_, ?_, fun hrest => ?_⟩
    · rw [closeImport_names, listedNames_ident rfl]
    · rw [closeImport_module]
      rfl
    · have hsemicolon : pieces [';'] = [.token .punct [';']] := by
        rw [pieces_mark (by decide), pieces_nil]
      rw [hrest, hsemicolon, tokensFrom, tokensFrom, closeImport_semicolon rfl, importsFrom_nil]
  rw [← dropLast_passString_iff hq]
  constructor
  · rintro ⟨i', hi', hnames', hmodule'⟩
    obtain rfl : i = i' := (List.cons.inj (hread.symm.trans hi')).1
    refine ⟨fun htype => ?_, hmodule.symm.trans hmodule'⟩
    rw [hnames, if_pos htype] at hnames'
    cases hnames'
  · rintro ⟨htype, hdrop⟩
    have hrest := passString_path ((dropLast_passString_iff hq p).mp hdrop)
    obtain rfl := hclosed (by rw [hrest])
    exact ⟨i, hread, by rw [hnames, if_neg htype], hmodule.trans hdrop⟩

/-! ### Planned statements -/

/-- The quote of the last of some statements, a single one when there are none. -/
def lastQuote (ss : List Import) : Char := (ss.getLast?.map Import.quote).getD '\''

theorem isQuote_lastQuote (source : Text) : isQuote (lastQuote (imports (tokens source))) = true := by
  rw [lastQuote]
  cases hlast : (imports (tokens source)).getLast? with
  | none => rfl
  | some i => exact (isQuote_of_mem_imports (List.mem_of_getLast? hlast)).1

theorem exists_importLine (s p : Text) (q : Char) :
    ∃ inner, importLine s p q = 'i' :: (inner ++ [';']) := by
  have happend (a b rest : Text) (ha : a = 'i' :: rest) : a ++ s ++ b ++ q :: p ++ [q, ';'] =
      'i' :: ((rest ++ s ++ b ++ q :: p ++ [q]) ++ [';']) := by
    rw [ha]
    simp only [List.append_assoc, List.cons_append, List.nil_append]
  exact ⟨_, happend _ _ "mport \x7b ".toList rfl⟩

/-- The line of a planned statement, without its newline. -/
theorem trim_planImport {source : Text} {ss : List Import} {r : Request} {e : Insertion}
    (h : e ∈ planImport source ss r) : Text.trim (· == '\n') e.text =
      importLine r.symbol r.importPath (lastQuote ss) := by
  have hline (q : Char) :
      Text.trim (· == '\n') ('\n' :: importLine r.symbol r.importPath q) =
          importLine r.symbol r.importPath q ∧
        Text.trim (· == '\n') (importLine r.symbol r.importPath q ++ ['\n']) =
          importLine r.symbol r.importPath q := by
    obtain ⟨inner, hshape⟩ := exists_importLine r.symbol r.importPath q
    generalize importLine r.symbol r.importPath q = line at hshape ⊢
    have hne : line ≠ [] := by
      rw [hshape]
      exact List.cons_ne_nil _ _
    have hhead : ∀ c ∈ line.head?, (c == '\n') = false := by
      intro c hc
      rw [hshape] at hc
      obtain rfl := Option.some.inj hc
      rfl
    have hlast : ∀ c ∈ line.getLast?, (c == '\n') = false := by
      intro c hc
      rw [hshape, ← List.cons_append, List.getLast?_concat] at hc
      obtain rfl := Option.some.inj hc
      rfl
    refine ⟨?_, Text.trim_append hne hhead hlast (by simp)⟩
    rw [Text.trim, List.dropWhile_cons_of_pos rfl]
    exact Text.trim_eq_self hhead hlast
  rcases planImport_cases source ss r with ⟨-, hnone⟩ | ⟨-, s, hlast, hplan⟩ | ⟨rfl, hplan⟩
  · rw [hnone] at h
    cases h
  · rw [hplan, List.mem_singleton] at h
    rw [h, lastQuote, Option.mem_def.mp hlast]
    exact (hline s.quote).1
  · rw [hplan, List.mem_singleton] at h
    rw [h]
    exact (hline '\'').2

end Graft.Registration
