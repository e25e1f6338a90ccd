import Graft.Text.Alphanumeric
import Graft.Text.Space

/-
The class that a script exports first.

A class is exported where the word `export`, optionally `default`, optionally `abstract`, and
`class` follow each other with white space between, and an identifier comes next.  The words are
found in the raw text; only a word character in front of `export` hides it.
-/
namespace Graft.Name

/-- What follows one or more white-space characters. -/
def afterSpace? : Text → Option Text
  | [] => none
  | c :: cs => if isSpace c then some (cs.dropWhile isSpace) else none

/-- What follows a word and the white space after it. -/
def afterWord? (word t : Text) : Option Text := (Text.after? word t).bind afterSpace?

/-- The rest after a word that may be missing. -/
def skipWord (word t : Text) : Text := (afterWord? word t).getD t

/-- A character that may begin the name of a class. -/
def isClassStart (c : Char) : Bool := c.isAlpha || c == '_' || c == '$'

/-- A character that may continue the name of a class. -/
def isClassPart (c : Char) : Bool := isWordChar c || c == '$'

/-- The name of the exported class that the text starts with. -/
def exportedHere? (t : Text) : Option Text :=
  match afterWord? "export".toList t with
  | none => none
  | some rest =>
    match afterWord? "class".toList
        (skipWord "abstract".toList (skipWord "default".toList rest)) with
    | none => none
    | some [] => none
    | some (c :: cs) => if isClassStart c then some (c :: cs.takeWhile isClassPart) else none

/-- The first exported class of a text; `inWord` tells whether a word character comes before. -/
def exportedFrom? (inWord : Bool) : Text → Option Text
  | [] => none
  | c :: cs =>
    match if inWord then none else exportedHere? (c :: cs) with
    | some name => some name
    | none => exportedFrom? (isWordChar c) cs

/-- The first class that a script exports. -/
def exported? (script : Text) : Option Text := exportedFrom? false script

end Graft.Name
