import Graft.Path

/-
Names derived from the path of an artifact.

  `Name.words t`        the runs of ASCII letters and digits, cut at case boundaries as well;
  `Name.kebab t`        the words in lower case, joined by hyphens;
  `Name.pascal t`       the words with a capital each, joined;
  `Name.base path`      the last segment up to its first dot;
  `Name.id path`        the kebab name of an artifact;
  `Name.symbol path s`  its class name, with the suffix `s`;
  `Name.tag path p`     its element tag, with the prefix `p`.

Inside a run, a word ends before a capital that follows a lower-case letter or a digit, and before
the last capital of a series that a lower-case letter follows, so that an acronym is one word.
-/
namespace Graft.Name

/-- Whether a word ends between `a` and `b`, which `next` follows. -/
def isJoint (a b : Char) (next : Option Char) : Bool :=
  b.isUpper && (a.isLower || a.isDigit || (a.isUpper && next.any Char.isLower))

/-- The text with a hyphen at every joint. -/
def hyphenated : Text → Text
  | a :: b :: cs =>
    if isJoint a b cs.head? then a :: '-' :: hyphenated (b :: cs) else a :: hyphenated (b :: cs)
  | t => t

def words (t : Text) : List Text :=
  ((hyphenated t).splitOnP fun c => !c.isAlphanum).filter fun w => !w.isEmpty

/-- A word with a capital first letter and lower-case others. -/
def capitalised : Text → Text
  | [] => []
  | c :: cs => c.toUpper :: Text.lowerAscii cs

def kebab (t : Text) : Text := List.intercalate ['-'] ((words t).map Text.lowerAscii)

def pascal (t : Text) : Text := (words t).flatMap capitalised

/-- The last segment of a path up to its first dot. -/
def base (path : Text) : Text :=
  (Path.lastSegment (Text.trimRight Path.isSlash (Path.forward path))).takeWhile (· != '.')

/-- The identifier of the artifact at a path. -/
def id (path : Text) : Text := kebab (base path)

/-- The suffix of a component's class name. -/
def componentSuffix : Text := "Component".toList

/-- The prefix of element tags unless another is chosen. -/
def defaultPrefix : Text := "app".toList

/-- The class name that the artifact at a path is expected to export. -/
def symbol (path suffix : Text) : Text := pascal (base path) ++ suffix

/-- The element tag of the artifact at a path. -/
def tag (path lead : Text) : Text :=
  match kebab lead with
  | [] => id path
  | p => p ++ '-' :: id path

end Graft.Name
