import Graft.Script.Token
import Mathlib.Data.List.TakeWhile

/-
Reading the parts of a script again.

A script is cut into pieces from the left, so what a piece is may depend on all that stands before
it.  Where every string, template literal and block comment is closed it does not:

* `Closed t` — every string, template literal and block comment of a script is closed;
* `Joins a b` — the last piece of `a` does not read on into `b`;
* `pieces_append` — **a closed script and what it joins are cut into pieces one by one**;
* `Between t n` — an offset at which a script can be cut without cutting a piece;
* `between_of_pieces` — the ends of pieces are such offsets.

Design notes: `Piece.reads` says of each piece at which characters it would have gone on; that it
does not find one of them (`firstPiece_stops`), and that it comes out the same before any other
character (`firstPiece_reread`), is all that later proofs use of the readers.
-/
namespace Graft.Script

/-! ### Closed pieces -/

/-- Whether a text after the quote `q` ends with that quote, and not before. -/
def closesString (q : Char) : Text → Bool
  | [] => false
  | ['\\'] => false
  | '\\' :: _ :: cs => closesString q cs
  | c :: cs => if c = q then cs.isEmpty else c != '\n' && closesString q cs

/-- Whether a text closes the open frames, and not before its end. -/
def closesFrames : List Frame → Text → Bool
  | [], t => t.isEmpty
  | _ :: _, [] => false
  | _ :: _, ['\\'] => false
  | .template :: fs, '\\' :: _ :: cs => closesFrames (.template :: fs) cs
  | .template :: fs, '$' :: '{' :: cs => closesFrames (.braces :: .template :: fs) cs
  | .template :: fs, c :: cs =>
    if c = backtick then closesFrames fs cs else closesFrames (.template :: fs) cs
  | .braces :: fs, c :: cs =>
    if isQuote c then closesFrames (.string c :: .braces :: fs) cs
    else if c = backtick then closesFrames (.template :: .braces :: fs) cs
    else if c = '{' then closesFrames (.braces :: .braces :: fs) cs
    else if c = '}' then closesFrames fs cs
    else closesFrames (.braces :: fs) cs
  | .string q :: fs, '\\' :: _ :: cs => closesFrames (.string q :: fs) cs
  | .string q :: fs, c :: cs =>
    if c = q || c = '\n' then closesFrames fs cs else closesFrames (.string q :: fs) cs

/-- Whether a text ends with the mark that closes a block comment, and not before. -/
def closesComment : Text → Bool
  | [] => false
  | '*' :: '/' :: cs => cs.isEmpty
  | _ :: cs => closesComment cs

/-- Whether a piece is closed: a string by its quote, a template literal by a backtick, and a block
comment by its mark.  Other pieces need no closing. -/
def Piece.isClosed : Piece → Bool
  | .token .string (q :: cs) => closesString q cs
  | .token .template (_ :: cs) => closesFrames [.template] cs
  | .gap ('/' :: '*' :: cs) => closesComment cs
  | _ => true

/-- Whether every string, template literal and block comment of a script is closed. -/
def Closed (t : Text) : Prop := ∀ p ∈ pieces t, p.isClosed = true

instance (t : Text) : Decidable (Closed t) := List.decidableBAll _ _

/-- Whether a piece would have gone on at a character. -/
def Piece.reads (d : Char) : Piece → Bool
  | .gap ('/' :: '/' :: _) => d != '\n'
  | .token .ident _ => isIdentChar d
  | .token .punct ['/'] => d == '/' || d == '*'
  | _ => false

/-- The last piece of a script does not read on into a text. -/
def Joins (a b : Text) : Prop := ∀ p ∈ (pieces a).getLast?, ∀ d ∈ b.head?, p.reads d = false

theorem passString_of_closes {q : Char} {t : Text} (h : closesString q t = true) (rest : Text) :
    passString q (t ++ rest) = (t, rest) := by
  fun_induction closesString q t with
  | case1 => cases h
  | case2 => cases h
  | case3 c cs ih =>
    show passing '\\' (passing c (passString q (cs ++ rest))) = _
    rw [ih h]
    rfl
  | case4 cs hne hesc =>
    rw [List.isEmpty_iff] at h
    subst h
    rw [List.singleton_append, passString]
    · rw [if_pos rfl]
    · rintro c cs rfl hcs
      exact hne rfl rfl
  | case5 c cs hne hesc hq ih =>
    rw [Bool.and_eq_true, bne_iff_ne] at h
    rw [List.cons_append, passString, if_neg hq, if_neg h.1, ih h.2]
    · rfl
    · rintro d ds rfl hds
      cases cs with
      | nil => exact hne rfl rfl
      | cons e es => exact hesc e es rfl rfl

theorem passFrames_template {fs : List Frame} {c : Char} {cs : Text} (hesc : c ≠ '\\')
    (hsub : ∀ ds, c = '$' → cs = '{' :: ds → False) :
    passFrames (.template :: fs) (c :: cs) =
      if c = backtick then passing c (passFrames fs cs)
      else passing c (passFrames (.template :: fs) cs) := by
  rw [passFrames]
  · exact fun d ds h => absurd h hesc
  · exact hsub

theorem passFrames_string {q c : Char} {fs : List Frame} {cs : Text} (hesc : c ≠ '\\') :
    passFrames (.string q :: fs) (c :: cs) =
      if c = q || c = '\n' then passing c (passFrames fs cs)
      else passing c (passFrames (.string q :: fs) cs) := by
  rw [passFrames]
  exact fun d ds h => absurd h hesc

theorem passFrames_of_closes {fs : List Frame} {t : Text} (h : closesFrames fs t = true)
    (rest : Text) : passFrames fs (t ++ rest) = (t, rest) := by
  -- A backslash takes a character with it, so it cannot be the last of a text that closes frames.
  have hescape {c : Char} {cs : Text} (hlast : c = '\\' → cs = [] → False)
      (hmore : ∀ d ds, c = '\\' → cs = d :: ds → False) : c ≠ '\\' := by
    intro hc
    cases cs with
    | nil => exact hlast hc rfl
    | cons d ds => exact hmore d ds hc rfl
  fun_induction closesFrames fs t with
  | case1 t =>
    rw [List.isEmpty_iff] at h
    subst h
    rw [passFrames, List.nil_append]
  | case2 => cases h
  | case3 => cases h
  | case4 fs d cs ih =>
    rw [List.cons_append, List.cons_append, passFrames, ih h]
    rfl
  | case5 fs cs ih =>
    rw [List.cons_append, List.cons_append, passFrames, ih h]
    rfl
  | case6 fs cs hlast hmore hsub ih =>
    rw [List.cons_append, passFrames_template (by decide) (fun _ hc => absurd hc (by decide)),
      if_pos rfl, ih h]
    rfl
  | case7 fs c cs hlast hmore hsub hc ih =>
    have hnext : ∀ ds, c = '$' → cs ++ rest = '{' :: ds → False := by
      intro ds hd hcs
      cases cs with
      | nil => rw [closesFrames] at h; cases h
      | cons e es =>
        rw [List.cons_append, List.cons.injEq] at hcs
        exact hsub es hd (by rw [hcs.1])
    rw [List.cons_append, passFrames_template (hescape hlast hmore) hnext, if_neg hc, ih h]
    rfl
  | case8 fs c cs hlast hq ih =>
    rw [List.cons_append, passFrames, if_pos hq, ih h]
    rfl
  | case9 fs cs hlast hq ih =>
    rw [List.cons_append, passFrames, if_neg hq, if_pos rfl, ih h]
    rfl
  | case10 fs cs hlast hq hb ih =>
    rw [List.cons_append, passFrames, if_neg hq, if_neg hb, if_pos rfl, ih h]
    rfl
  | case11 fs cs hlast hq hb ho ih =>
    rw [List.cons_append, passFrames, if_neg hq, if_neg hb, if_neg ho, if_pos rfl, ih h]
    rfl
  | case12 fs c cs hlast hq hb ho hc ih =>
    rw [List.cons_append, passFrames, if_neg hq, if_neg hb, if_neg ho, if_neg hc, ih h]
    rfl
  | case13 q fs d cs ih =>
    rw [List.cons_append, List.cons_append, passFrames, ih h]
    rfl
  | case14 q fs c cs hlast hmore hc ih =>
    rw [List.cons_append, passFrames_string (hescape hlast hmore), if_pos hc, ih h]
    rfl
  | case15 q fs c cs hlast hmore hc ih =>
    rw [List.cons_append, passFrames_string (hescape hlast hmore), if_neg hc, ih h]
    rfl

theorem passComment_of_closes {t : Text} (h : closesComment t = true) (rest : Text) :
    passComment (t ++ rest) = (t, rest) := by
  fun_induction closesComment t with
  | case1 => cases h
  | case2 cs =>
    rw [List.isEmpty_iff] at h
    subst h
    rfl
  | case3 c cs hne ih =>
    have hcs : cs ≠ [] := by
      rintro rfl
      cases h
    rw [List.cons_append, passComment, ih h]
    · rfl
    · rintro d rfl hd
      cases cs with
      | nil => exact hcs rfl
      | cons e es =>
        rw [List.cons_append, List.cons.injEq] at hd
        exact hne es rfl (by rw [hd.1])

theorem passWhile_append_of {p : Char → Bool} {t rest : Text} (h : ∀ c ∈ t, p c = true)
    (hrest : ∀ d ∈ rest.head?, p d = false) : passWhile p (t ++ rest) = (t, rest) := by
  rw [passWhile, List.takeWhile_append_of_pos h, List.dropWhile_append_of_pos h]
  cases rest with
  | nil => rw [List.takeWhile_nil, List.dropWhile_nil, List.append_nil]
  | cons d ds =>
    have hd : ¬ p d = true := by rw [hrest d rfl]; decide
    rw [List.takeWhile_cons_of_neg hd, List.dropWhile_cons_of_neg hd, List.append_nil]

/-! ### One piece -/

theorem isIdentChar_of_isSpace {c : Char} (h : isSpace c = true) : isIdentChar c = false := by
  have hall : ∀ n ∈ [0x20, 0x85, 0xA0, 0x1680, 0x2028, 0x2029, 0x202F, 0x205F, 0x3000] ++
      List.range' 0x09 5 ++ List.range' 0x1C 4 ++ List.range' 0x2000 11,
      isIdentChar (Char.ofNat n) = false := by
    decide +kernel
  have hc := hall c.toNat
  rw [Char.ofNat_toNat] at hc
  apply hc
  simp only [isSpace, Bool.or_eq_true, Bool.and_eq_true, decide_eq_true_eq, beq_iff_eq] at h
  simp only [List.mem_append, List.mem_cons, List.mem_range'_1, List.not_mem_nil, or_false]
  omega

theorem takeWhile_stops (p : Char → Bool) (t : Text) : ∀ d ∈ (t.dropWhile p).head?, p d = false := by
  intro d hd
  have := List.head?_dropWhile_not p t
  rw [Option.mem_def.mp hd] at this
  simpa using this

theorem firstPiece_space {c : Char} (h : isSpace c = true) (cs : Text) :
    firstPiece c cs = (.gap [c], cs) := if_pos h

theorem firstPiece_slash (cs : Text) : firstPiece '/' cs = passSlash cs := rfl

theorem firstPiece_quote {c : Char} (h : isQuote c = true) (cs : Text) :
    firstPiece c cs = Piece.ofToken .string c (passString c cs) := by
  rw [isQuote, Bool.or_eq_true, beq_iff_eq, beq_iff_eq] at h
  rcases h with rfl | rfl <;> rfl

theorem firstPiece_ident {c : Char} (h : isIdentChar c = true) (cs : Text) :
    firstPiece c cs = Piece.ofToken .ident c (passWhile isIdentChar cs) := by
  have hne {d : Char} (hd : isIdentChar d = false) : c ≠ d := by
    rintro rfl
    rw [hd] at h
    cases h
  have hquote : isQuote c = false := by
    simp [isQuote, hne (d := '\'') (by decide), hne (d := '"') (by decide)]
  have hspace : ¬ isSpace c = true := by
    intro hs
    rw [isIdentChar_of_isSpace hs] at h
    cases h
  rw [firstPiece, if_neg hspace, if_neg (hne (by decide)), if_neg (by simp [hquote]),
    if_neg (hne (by decide)), if_pos h]

/-- A character that is a token of its own. -/
def isPlainMark (c : Char) : Bool :=
  !isSpace c && c != '/' && !isQuote c && c != backtick && !isIdentChar c

theorem firstPiece_mark {c : Char} (h : isPlainMark c = true) (cs : Text) :
    firstPiece c cs = (.token .punct [c], cs) := by
  simp only [isPlainMark, Bool.and_eq_true, Bool.not_eq_true', bne_iff_ne] at h
  obtain ⟨⟨⟨⟨h1, h2⟩, h3⟩, h4⟩, h5⟩ := h
  rw [firstPiece, if_neg (by simp [h1]), if_neg h2, if_neg (by simp [h3]), if_neg h4,
    if_neg (by simp [h5])]

theorem char_cases (c : Char) : isSpace c = true ∨ c = '/' ∨ isQuote c = true ∨ c = backtick ∨
    isIdentChar c = true ∨ isPlainMark c = true := by
  by_cases h1 : isSpace c = true
  · exact .inl h1
  by_cases h2 : c = '/'
  · exact .inr (.inl h2)
  by_cases h3 : isQuote c = true
  · exact .inr (.inr (.inl h3))
  by_cases h4 : c = backtick
  · exact .inr (.inr (.inr (.inl h4)))
  by_cases h5 : isIdentChar c = true
  · exact .inr (.inr (.inr (.inr (.inl h5))))
  · simp [isPlainMark, h1, h2, h3, h4, h5]

theorem reads_space {c d : Char} : (Piece.gap [c]).reads d = false := by
  unfold Piece.reads
  split <;> simp_all

theorem reads_mark {c d : Char} (h : c ≠ '/') : (Piece.token .punct [c]).reads d = false := by
  unfold Piece.reads
  split <;> simp_all

theorem isPlainMark.ne_slash {c : Char} (h : isPlainMark c = true) : c ≠ '/' := by
  rintro rfl
  exact absurd h (by decide)

theorem passSlash_stops {cs : Text} :
    ∀ d ∈ (passSlash cs).2.head?, (passSlash cs).1.reads d = false := by
  fun_cases passSlash cs with
  | case1 cs => exact takeWhile_stops (· != '\n') cs
  | case2 cs => exact fun _ _ => rfl
  | case3 _ hline hblock =>
    intro d hd
    obtain ⟨ds, rfl⟩ : ∃ ds, cs = d :: ds := List.head?_eq_some_iff.mp hd
    show (d == '/' || d == '*') = false
    rw [Bool.or_eq_false_iff, beq_eq_false_iff_ne, beq_eq_false_iff_ne]
    constructor
    · rintro rfl
      exact hline ds rfl
    · rintro rfl
      exact hblock ds rfl

/-- A piece ends where it would not have gone on. -/
theorem firstPiece_stops {c : Char} {cs : Text} :
    ∀ d ∈ (firstPiece c cs).2.head?, (firstPiece c cs).1.reads d = false := by
  rcases char_cases c with h | rfl | h | rfl | h | h
  · rw [firstPiece_space h]
    exact fun _ _ => reads_space
  · exact passSlash_stops
  · rw [firstPiece_quote h]
    exact fun _ _ => rfl
  · exact fun _ _ => rfl
  · rw [firstPiece_ident h]
    exact takeWhile_stops isIdentChar cs
  · rw [firstPiece_mark h]
    exact fun _ _ => reads_mark (isPlainMark.ne_slash h)

theorem passSlash_reread {cs rest : Text} (hclosed : (passSlash cs).1.isClosed = true)
    (hrest : ∀ d ∈ rest.head?, (passSlash cs).1.reads d = false) :
    passSlash ((passSlash cs).1.text.tail ++ rest) = ((passSlash cs).1, rest) := by
  revert hclosed hrest
  fun_cases passSlash cs with
  | case1 cs =>
    intro _ hrest
    have hpass : passWhile (· != '\n') (cs.takeWhile (· != '\n') ++ rest) =
        (cs.takeWhile (· != '\n'), rest) :=
      passWhile_append_of (fun _ => List.mem_takeWhile_imp (p := (· != '\n'))) hrest
    show Piece.ofGap ['/', '/'] (passWhile (· != '\n') (cs.takeWhile (· != '\n') ++ rest)) = _
    rw [hpass]
    rfl
  | case2 cs =>
    intro hclosed _
    have hpass : passComment ((passComment cs).1 ++ rest) = ((passComment cs).1, rest) :=
      passComment_of_closes hclosed rest
    show Piece.ofGap ['/', '*'] (passComment ((passComment cs).1 ++ rest)) = _
    rw [hpass]
    rfl
  | case3 _ hline hblock =>
    intro _ hrest
    show passSlash rest = _
    rw [passSlash]
    · rintro ds rfl
      exact Bool.noConfusion (hrest '/' rfl)
    · rintro ds rfl
      exact Bool.noConfusion (hrest '*' rfl)

/-- A closed piece is read again as it was before any text that it does not read on into. -/
theorem firstPiece_reread {c : Char} {cs rest : Text} (hclosed : (firstPiece c cs).1.isClosed = true)
    (hrest : ∀ d ∈ rest.head?, (firstPiece c cs).1.reads d = false) :
    firstPiece c ((firstPiece c cs).1.text.tail ++ rest) = ((firstPiece c cs).1, rest) := by
  rcases char_cases c with h | rfl | h | rfl | h | h
  · rw [firstPiece_space h, firstPiece_space h]
    rfl
  · exact passSlash_reread hclosed hrest
  · rw [firstPiece_quote h] at hclosed ⊢
    have hpass := passString_of_closes hclosed rest
    rw [firstPiece_quote h]
    show Piece.ofToken .string c (passString c ((passString c cs).1 ++ rest)) = _
    rw [hpass]
    rfl
  · have hpass := passFrames_of_closes hclosed rest
    show Piece.ofToken .template backtick
      (passFrames [.template] ((passFrames [.template] cs).1 ++ rest)) = _
    rw [hpass]
    rfl
  · rw [firstPiece_ident h] at hrest ⊢
    have hpass : passWhile isIdentChar (cs.takeWhile isIdentChar ++ rest) =
        (cs.takeWhile isIdentChar, rest) :=
      passWhile_append_of (fun c hc => List.mem_takeWhile_imp hc) hrest
    rw [firstPiece_ident h]
    show Piece.ofToken .ident c (passWhile isIdentChar (cs.takeWhile isIdentChar ++ rest)) = _
    rw [hpass]
    rfl
  · rw [firstPiece_mark h, firstPiece_mark h]
    rfl

/-! ### Whole scripts -/

theorem pieces_nil : pieces [] = [] := by
  rw [pieces]

theorem pieces_eq_nil {t : Text} : pieces t = [] ↔ t = [] := by
  cases t with
  | nil => simp [pieces_nil]
  | cons c cs => simp [pieces_cons]

theorem firstPiece_tail (c : Char) (cs : Text) :
    (firstPiece c cs).1.text.tail ++ (firstPiece c cs).2 = cs := by
  have hwhole := firstPiece_append c cs
  cases ht : (firstPiece c cs).1.text with
  | nil => exact absurd ht (firstPiece_text_ne_nil c cs)
  | cons d ds =>
    rw [ht, List.cons_append, List.cons.injEq] at hwhole
    exact hwhole.2

theorem closed_cons {c : Char} {cs : Text} : Closed (c :: cs) ↔
    (firstPiece c cs).1.isClosed = true ∧ Closed (firstPiece c cs).2 := by
  rw [Closed, pieces_cons, List.forall_mem_cons]
  rfl

/-- **A closed script and what it joins are cut into pieces one by one.** -/
theorem pieces_append {a b : Text} (ha : Closed a) (h : Joins a b) :
    pieces (a ++ b) = pieces a ++ pieces b := by
  fun_induction pieces a with
  | case1 => rfl
  | case2 c cs ih =>
    obtain ⟨hfirst, hrest⟩ := closed_cons.mp ha
    have hnext : ∀ d ∈ ((firstPiece c cs).2 ++ b).head?, (firstPiece c cs).1.reads d = false := by
      intro d hd
      cases hr : (firstPiece c cs).2 with
      | nil =>
        have hlast : pieces (c :: cs) = [(firstPiece c cs).1] := by
          rw [pieces_cons, hr, pieces_eq_nil.mpr rfl]
        rw [hr] at hd
        exact h _ (by rw [hlast]; rfl) d hd
      | cons e es =>
        rw [hr] at hd
        exact firstPiece_stops d (by rw [hr]; exact hd)
    have hjoins : Joins (firstPiece c cs).2 b := by
      intro p hp
      refine h p ?_
      rw [pieces_cons, List.getLast?_cons, Option.mem_def.mp hp]
      rfl
    have hfirstPiece := firstPiece_reread hfirst hnext
    rw [← List.append_assoc, firstPiece_tail] at hfirstPiece
    rw [List.cons_append, pieces_cons, hfirstPiece, ih hrest hjoins]
    rfl

/-- The last pieces of a script are those of the text that they make up. -/
theorem pieces_flatMap_of_suffix {t : Text} {A B : List Piece} (h : pieces t = A ++ B) :
    pieces (B.flatMap Piece.text) = B := by
  fun_induction pieces t generalizing A with
  | case1 =>
    rw [eq_comm, List.append_eq_nil_iff] at h
    rw [h.2, List.flatMap_nil, pieces_nil]
  | case2 c cs ih =>
    cases A with
    | nil =>
      rw [List.nil_append] at h
      rw [← h, ← pieces_cons, text_pieces]
    | cons p ps =>
      rw [List.cons_append, List.cons.injEq] at h
      exact ih h.2

/-- The first pieces of a closed script are those of the text that they make up. -/
theorem pieces_flatMap_of_prefix {t : Text} (ht : Closed t) {A B : List Piece}
    (h : pieces t = A ++ B) : pieces (A.flatMap Piece.text) = A := by
  fun_induction pieces t generalizing A with
  | case1 =>
    rw [eq_comm, List.append_eq_nil_iff] at h
    rw [h.1, List.flatMap_nil, pieces_nil]
  | case2 c cs ih =>
    cases A with
    | nil => rw [List.flatMap_nil, pieces_nil]
    | cons p ps =>
      obtain ⟨hfirst, hrest⟩ := closed_cons.mp ht
      rw [List.cons_append, List.cons.injEq] at h
      have hps := ih hrest h.2
      have hnext : ∀ d ∈ (ps.flatMap Piece.text).head?, (firstPiece c cs).1.reads d = false := by
        intro d hd
        refine firstPiece_stops d ?_
        rw [← text_pieces (firstPiece c cs).2, h.2, List.flatMap_append, List.head?_append,
          Option.mem_def.mp hd]
        rfl
      have hread := firstPiece_reread hfirst hnext
      have htext : (firstPiece c cs).1.text = c :: (firstPiece c cs).1.text.tail := by
        have hwhole := firstPiece_append c cs
        cases hp : (firstPiece c cs).1.text with
        | nil => exact absurd hp (firstPiece_text_ne_nil c cs)
        | cons d ds =>
          rw [hp, List.cons_append, List.cons.injEq] at hwhole
          rw [hwhole.1]
          rfl
      rw [← h.1, List.flatMap_cons, htext, List.cons_append, pieces_cons, hread, hps]

/-- What holds of every first piece holds of all pieces. -/
theorem forall_pieces {P : Piece → Prop} (h : ∀ c cs, P (firstPiece c cs).1) {t : Text} :
    ∀ p ∈ pieces t, P p := by
  fun_induction pieces t with
  | case1 => simp
  | case2 c cs ih => exact List.forall_mem_cons.mpr ⟨h c cs, ih⟩

theorem piece_text_ne_nil {t : Text} {p : Piece} (h : p ∈ pieces t) : p.text ≠ [] :=
  forall_pieces (P := fun p => p.text ≠ []) firstPiece_text_ne_nil p h

/-- A gap does not begin with an identifier character. -/
theorem gap_head {t x : Text} (h : .gap x ∈ pieces t) :
    ∃ c cs, x = c :: cs ∧ isIdentChar c = false := by
  refine forall_pieces (P := fun p => ∀ x, p = .gap x → ∃ c cs, x = c :: cs ∧ isIdentChar c = false)
    (fun c cs => ?_) _ h x rfl
  rintro x hx
  rcases char_cases c with h | rfl | h | rfl | h | h
  · rw [firstPiece_space h, Piece.gap.injEq] at hx
    exact ⟨c, [], hx.symm, isIdentChar_of_isSpace h⟩
  · rw [firstPiece_slash] at hx
    revert hx
    fun_cases passSlash cs
    · intro hx
      exact ⟨'/', _, (Piece.gap.inj hx).symm, by decide⟩
    · intro hx
      exact ⟨'/', _, (Piece.gap.inj hx).symm, by decide⟩
    · intro hx
      cases hx
  · rw [firstPiece_quote h] at hx
    cases hx
  · cases hx
  · rw [firstPiece_ident h] at hx
    cases hx
  · rw [firstPiece_mark h] at hx
    cases hx

theorem string_head {t x : Text} (h : .token .string x ∈ pieces t) :
    ∃ q cs, x = q :: cs ∧ isQuote q = true := by
  refine forall_pieces
    (P := fun p => ∀ x, p = .token .string x → ∃ q cs, x = q :: cs ∧ isQuote q = true)
    (fun c cs => ?_) _ h x rfl
  rintro x hx
  rcases char_cases c with h | rfl | h | rfl | h | h
  · rw [firstPiece_space h] at hx
    cases hx
  · rw [firstPiece_slash] at hx
    revert hx
    fun_cases passSlash cs <;> intro hx <;> cases hx
  · rw [firstPiece_quote h] at hx
    exact ⟨c, _, (Piece.token.inj hx).2.symm, h⟩
  · cases hx
  · rw [firstPiece_ident h] at hx
    cases hx
  · rw [firstPiece_mark h] at hx
    cases hx

/-- A piece does not read on into what follows it. -/
theorem reads_next {t : Text} {A B : List Piece} {p : Piece} (h : pieces t = A ++ p :: B) :
    ∀ d ∈ (B.flatMap Piece.text).head?, p.reads d = false := by
  fun_induction pieces t generalizing A with
  | case1 => simp at h
  | case2 c cs ih =>
    cases A with
    | nil =>
      rw [List.nil_append, List.cons.injEq] at h
      rw [← h.1, ← h.2, text_pieces]
      exact firstPiece_stops
    | cons q qs =>
      rw [List.cons_append, List.cons.injEq] at h
      exact ih h.2

/-! ### Places between pieces -/

/-- An offset at which a script can be cut without cutting one of its pieces. -/
def Between (t : Text) (n : Nat) : Prop := pieces t = pieces (t.take n) ++ pieces (t.drop n)

theorem between_zero (t : Text) : Between t 0 := by
  rw [Between, List.take_zero, List.drop_zero, pieces_nil, List.nil_append]

/-- The ends of the pieces of a closed script are places between them. -/
theorem pieces_take_of_pieces {t : Text} (ht : Closed t) {A B : List Piece}
    (h : pieces t = A ++ B) : pieces (t.take (A.flatMap Piece.text).length) = A ∧
      pieces (t.drop (A.flatMap Piece.text).length) = B := by
  have htext : t = A.flatMap Piece.text ++ B.flatMap Piece.text := by
    rw [← List.flatMap_append, ← h, text_pieces]
  constructor
  · rw [htext, List.take_left, pieces_flatMap_of_prefix ht h]
  · rw [htext, List.drop_left, pieces_flatMap_of_suffix h]

theorem between_of_pieces {t : Text} (ht : Closed t) {A B : List Piece} (h : pieces t = A ++ B) :
    Between t (A.flatMap Piece.text).length := by
  obtain ⟨hA, hB⟩ := pieces_take_of_pieces ht h
  rw [Between, hA, hB, h]

/-- Pieces that take as much text are as many. -/
theorem prefix_of_length_le {t : Text} {A B C D : List Piece} (h : pieces t = A ++ B)
    (h' : pieces t = C ++ D) (hlen : (A.flatMap Piece.text).length ≤ (C.flatMap Piece.text).length) :
    ∃ E, C = A ++ E ∧ B = E ++ D := by
  rcases List.append_eq_append_iff.mp (h.symm.trans h') with ⟨E, hC, hB⟩ | ⟨E, hA, hD⟩
  · exact ⟨E, hC, hB⟩
  · -- The other way round `A` would go on after `C`, but pieces take some text.
    have hE : E = [] := by
      cases E with
      | nil => rfl
      | cons p ps =>
        have hne : p.text ≠ [] := piece_text_ne_nil (by rw [h, hA]; simp)
        have hpos := List.length_pos_iff.mpr hne
        rw [hA, List.flatMap_append, List.length_append, List.flatMap_cons, List.length_append] at hlen
        omega
    subst hE
    exact ⟨[], by rw [hA, List.append_nil, List.append_nil], by rw [hD]; rfl⟩

/-- The text between two places, and the text on either side of it. -/
theorem between_slice {t : Text} {m n : Nat} (hmn : m ≤ n) (hn : n ≤ t.length) (hm : Between t m)
    (h : Between t n) : pieces (t.take n) = pieces (t.take m) ++ pieces ((t.take n).drop m) ∧
      pieces (t.drop m) = pieces ((t.take n).drop m) ++ pieces (t.drop n) := by
  obtain ⟨E, hC, hB⟩ := prefix_of_length_le hm h (by
    rw [text_pieces, text_pieces, List.length_take, List.length_take]
    omega)
  have hE : E.flatMap Piece.text = (t.take n).drop m := by
    have htext := congrArg (List.flatMap Piece.text) hC
    rw [text_pieces, List.flatMap_append, text_pieces] at htext
    have hlen : (t.take m).length = m := by
      rw [List.length_take]
      omega
    rw [htext]
    exact (List.drop_left' hlen).symm
  have hpieces : pieces ((t.take n).drop m) = E := by
    rw [← hE]
    exact pieces_flatMap_of_suffix hC
  rw [hpieces]
  exact ⟨hC, hB⟩

/-- What stands before a place between pieces joins what stands after it. -/
theorem Between.joins {t : Text} {n : Nat} (h : Between t n) : Joins (t.take n) (t.drop n) := by
  intro p hp d hd
  obtain ⟨A, hA⟩ := List.getLast?_eq_some_iff.mp hp
  rw [Between, hA, List.append_assoc, List.singleton_append] at h
  refine reads_next h d ?_
  rw [text_pieces]
  exact hd

/-- A piece that reads on at an identifier character is a line comment or an identifier. -/
theorem reads_ident {p : Piece} {d : Char} (hd : isIdentChar d = true) (h : p.reads d = true) :
    (∃ x, p = .gap ('/' :: '/' :: x)) ∨ ∃ x, p = .token .ident x := by
  unfold Piece.reads at h
  split at h
  next x => exact .inl ⟨x, rfl⟩
  next x => exact .inr ⟨x, rfl⟩
  next =>
    rw [Bool.or_eq_true, beq_iff_eq, beq_iff_eq] at h
    rcases h with rfl | rfl
    · exact absurd hd (by decide)
    · exact absurd hd (by decide)
  next => cases h

/-- No piece reads on at the end of its line. -/
theorem reads_newline (p : Piece) : p.reads '\n' = false := by
  unfold Piece.reads
  split
  · rfl
  · decide
  · rfl
  · rfl

theorem Between.closed_take {t : Text} {n : Nat} (ht : Closed t) (h : Between t n) :
    Closed (t.take n) := fun p hp => ht p (by rw [h]; exact List.mem_append_left _ hp)

end Graft.Script
