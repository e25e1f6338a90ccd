import Graft.Text.Space

/-
Marker lines.

A marker is a line `### filename: PATH ###` that announces the path of an artifact.  White space may
stand before and between its parts, the word is read in any letter case, and white space, hashes,
stars, backticks and quotes around the path do not belong to it.

  `marker? line`   the announced path, for a marker.
-/
namespace Graft.Response

/-- Whether a character is read as a given lower-case letter: in either case, and for `i` also the
capital with a dot and the small letter without one. -/
def readsAs (letter c : Char) : Bool :=
  c.toLower == letter || (letter == 'i' && (c == '\u0130' || c == '\u0131'))

/-- What follows a lower-case word, read in any letter case. -/
def afterWord? : Text → Text → Option Text
  | [], t => some t
  | _ :: _, [] => none
  | a :: as, c :: cs => if readsAs a c then afterWord? as cs else none

/-- What follows the white space that a text begins with. -/
def skipSpace (t : Text) : Text := t.dropWhile isSpace

/-- The characters around an announced path that do not belong to it. -/
def isTrimming (c : Char) : Bool :=
  c = '#' || c = '\x60' || c = '*' || c = '"' || c = '\'' || c = ' ' || c = '\t'

/-- A path without what may stand around it. -/
def trimmedPath (t : Text) : Text := Text.stripped (Text.trim isTrimming (Text.stripped t))

/-- A text up to its newline, when nothing follows the newline. -/
def onlyLine? (t : Text) : Option Text :=
  match t.dropWhile (· != '\n') with
  | [] => some t
  | [_] => some (t.takeWhile (· != '\n'))
  | _ => none

/-- The path that a marker line announces. -/
def marker? (line : Text) : Option Text := do
  let rest ← Text.after? "###".toList (skipSpace line)
  let rest ← afterWord? "filename".toList (skipSpace rest)
  let rest ← Text.after? [':'] (skipSpace rest)
  let rest ← onlyLine? (skipSpace rest)
  return trimmedPath rest

end Graft.Response
