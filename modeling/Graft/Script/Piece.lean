import Graft.Text.Alphanumeric
import Graft.Text.Space

/-
A script cut into pieces: tokens, and the gaps between them.

  `Piece`          a token with its text, or a gap: one white-space character or one comment;
  `pieces t`       the pieces of a script, in order;
  `pieces_cons`    the first piece, then the pieces of the rest;
  `text_pieces`    the texts of the pieces, put together, are the script.

Design notes.  Each reader returns what it passed and what is left, so that nothing is lost by
construction.  A template literal and the strings, templates and braces inside its substitutions
are passed with a stack of frames, one for each that is still open; comments are not known there, and
there is no limit to the depth.
-/
namespace Graft.Script

/-- What a token is. -/
inductive TokenKind where
  | ident
  -- A string in single or double quotes.
  | string
  | template
  | punct
  deriving DecidableEq, Repr

/-- A token or a gap, with its text. -/
inductive Piece where
  | gap (text : Text)
  | token (kind : TokenKind) (text : Text)
  deriving DecidableEq, Repr

def Piece.text : Piece → Text
  | .gap t => t
  | .token _ t => t

def backtick : Char := '\x60'

def isIdentChar (c : Char) : Bool := isAlphanumeric c || c == '_' || c == '$'

def isQuote (c : Char) : Bool := c == '\'' || c == '"'

/-- Puts a character in front of what was passed. -/
def passing (c : Char) (r : Text × Text) : Text × Text := (c :: r.1, r.2)

/-- The rest of a string in the quotes `q`.  A backslash takes the next character with it; the
string ends after its quote, or before the end of the line. -/
def passString (q : Char) : Text → Text × Text
  | [] => ([], [])
  | '\\' :: c :: cs => passing '\\' (passing c (passString q cs))
  | c :: cs =>
    if c = q then ([c], cs)
    else if c = '\n' then ([], c :: cs)
    else passing c (passString q cs)

/-- What is open inside a template literal. -/
inductive Frame where
  | template
  | braces
  | string (quote : Char)
  deriving DecidableEq, Repr

/-- The rest of the open frames, innermost first.  A string inside a substitution also ends with
its line. -/
def passFrames : List Frame → Text → Text × Text
  | [], t => ([], t)
  | _ :: _, [] => ([], [])
  | .template :: fs, '\\' :: c :: cs => passing '\\' (passing c (passFrames (.template :: fs) cs))
  | .template :: fs, '$' :: '{' :: cs =>
    passing '$' (passing '{' (passFrames (.braces :: .template :: fs) cs))
  | .template :: fs, c :: cs =>
    if c = backtick then passing c (passFrames fs cs)
    else passing c (passFrames (.template :: fs) cs)
  | .braces :: fs, c :: cs =>
    if isQuote c then passing c (passFrames (.string c :: .braces :: fs) cs)
    else if c = backtick then passing c (passFrames (.template :: .braces :: fs) cs)
    else if c = '{' then passing c (passFrames (.braces :: .braces :: fs) cs)
    else if c = '}' then passing c (passFrames fs cs)
    else passing c (passFrames (.braces :: fs) cs)
  | .string q :: fs, '\\' :: c :: cs =>
    passing '\\' (passing c (passFrames (.string q :: fs) cs))
  | .string q :: fs, c :: cs =>
    if c = q || c = '\n' then passing c (passFrames fs cs)
    else passing c (passFrames (.string q :: fs) cs)

/-- The rest of a block comment, through its first closing mark. -/
def passComment : Text → Text × Text
  | [] => ([], [])
  | '*' :: '/' :: cs => (['*', '/'], cs)
  | c :: cs => passing c (passComment cs)

/-- The characters up to the first that does not satisfy `p`. -/
def passWhile (p : Char → Bool) (t : Text) : Text × Text := (t.takeWhile p, t.dropWhile p)

/-- A token of what `lead` and a reader passed. -/
def Piece.ofToken (kind : TokenKind) (lead : Char) (r : Text × Text) : Piece × Text :=
  (.token kind (lead :: r.1), r.2)

/-- A gap of what `lead` and a reader passed. -/
def Piece.ofGap (lead : Text) (r : Text × Text) : Piece × Text := (.gap (lead ++ r.1), r.2)

/-- What begins with a slash: a comment of either form, or a token. -/
def passSlash : Text → Piece × Text
  | '/' :: cs => Piece.ofGap ['/', '/'] (passWhile (· != '\n') cs)
  | '*' :: cs => Piece.ofGap ['/', '*'] (passComment cs)
  | cs => (.token .punct ['/'], cs)

/-- The piece that begins with `c`, and what is left of `cs` after it. -/
def firstPiece (c : Char) (cs : Text) : Piece × Text :=
  if isSpace c then (.gap [c], cs)
  else if c = '/' then passSlash cs
  else if isQuote c then Piece.ofToken .string c (passString c cs)
  else if c = backtick then Piece.ofToken .template c (passFrames [.template] cs)
  else if isIdentChar c then Piece.ofToken .ident c (passWhile isIdentChar cs)
  else (.token .punct [c], cs)

theorem passString_append (q : Char) (t : Text) :
    (passString q t).1 ++ (passString q t).2 = t := by
  fun_induction passString q t <;> simp_all [passing]

theorem passFrames_append (fs : List Frame) (t : Text) :
    (passFrames fs t).1 ++ (passFrames fs t).2 = t := by
  fun_induction passFrames fs t <;> simp_all [passing]

theorem passComment_append (t : Text) : (passComment t).1 ++ (passComment t).2 = t := by
  fun_induction passComment t <;> simp_all [passing]

theorem passWhile_append (p : Char → Bool) (t : Text) :
    (passWhile p t).1 ++ (passWhile p t).2 = t := List.takeWhile_append_dropWhile

theorem Piece.ofToken_append (kind : TokenKind) (lead : Char) (r : Text × Text) :
    (ofToken kind lead r).1.text ++ (ofToken kind lead r).2 = lead :: (r.1 ++ r.2) := rfl

theorem Piece.ofGap_append (lead : Text) (r : Text × Text) :
    (ofGap lead r).1.text ++ (ofGap lead r).2 = lead ++ (r.1 ++ r.2) :=
  List.append_assoc ..

theorem passSlash_append (cs : Text) : (passSlash cs).1.text ++ (passSlash cs).2 = '/' :: cs := by
  fun_cases passSlash cs
  · rw [Piece.ofGap_append, passWhile_append]; rfl
  · rw [Piece.ofGap_append, passComment_append]; rfl
  · rfl

theorem firstPiece_append (c : Char) (cs : Text) :
    (firstPiece c cs).1.text ++ (firstPiece c cs).2 = c :: cs := by
  fun_cases firstPiece c cs
  · rfl
  · next h => rw [h]; exact passSlash_append cs
  · rw [Piece.ofToken_append, passString_append]
  · rw [Piece.ofToken_append, passFrames_append]
  · rw [Piece.ofToken_append, passWhile_append]
  · rfl

theorem passSlash_text_ne_nil (cs : Text) : (passSlash cs).1.text ≠ [] := by
  fun_cases passSlash cs <;> exact List.cons_ne_nil _ _

theorem firstPiece_text_ne_nil (c : Char) (cs : Text) : (firstPiece c cs).1.text ≠ [] := by
  fun_cases firstPiece c cs
  case case2 => exact passSlash_text_ne_nil cs
  all_goals exact List.cons_ne_nil _ _

theorem firstPiece_length_le (c : Char) (cs : Text) :
    (firstPiece c cs).2.length ≤ cs.length := by
  have h := congrArg List.length (firstPiece_append c cs)
  have := List.length_pos_iff.2 (firstPiece_text_ne_nil c cs)
  simp only [List.length_append, List.length_cons] at h
  omega

def pieces : Text → List Piece
  | [] => []
  | c :: cs => (firstPiece c cs).1 :: pieces (firstPiece c cs).2
termination_by t => t.length
decreasing_by exact Nat.lt_succ_of_le (firstPiece_length_le c cs)

theorem pieces_cons (c : Char) (cs : Text) :
    pieces (c :: cs) = (firstPiece c cs).1 :: pieces (firstPiece c cs).2 := by
  rw [pieces]

theorem text_pieces (t : Text) : (pieces t).flatMap Piece.text = t := by
  fun_induction pieces t with
  | case1 => rfl
  | case2 c cs ih => rw [List.flatMap_cons, ih, firstPiece_append]

end Graft.Script
