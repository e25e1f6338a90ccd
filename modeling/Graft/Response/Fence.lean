import Graft.Artifact

/-
Fence lines and their language tags.

  `fence`                the mark that opens and closes a fenced part;
  `languages`            the tags and the kinds they stand for;
  `Opening.ofText t`     what follows an opening fence, as kind, tag and remainder.

A tag is the run of tag characters after the fence.  When that run is no known tag, a known tag that
the text begins with counts as glued to content, unless a letter or digit follows it.
-/
namespace Graft.Response

def fence : Text := "\x60\x60\x60".toList

/-- The known tags, from the longest to the shortest, and the kinds they stand for. -/
def languages : List (Text × Kind) :=
  [("typescript".toList, .script), ("html".toList, .markup), ("scss".toList, .style),
   ("css".toList, .style), ("ts".toList, .script)]

def isTagChar (c : Char) : Bool :=
  c.isAlphanum || c = '_' || c = '+' || c = '#' || c = '.' || c = '-'

/-- The text after an opening fence, taken apart. -/
structure Opening where
  -- The kind that the tag stands for.
  kind : Option Kind
  tag : Text
  rest : Text
  deriving DecidableEq, Repr

/-- The part of a text that is a known tag in any letter case, not followed by a letter or digit. -/
def gluedTag? (t : Text) : Option (Text × Kind) :=
  languages.find? fun l =>
    Text.lowerAscii (t.take l.1.length) == l.1 && !(t.drop l.1.length).head?.any isAlphanumeric

/-- Takes the text after an opening fence apart. -/
def Opening.ofText (t : Text) : Opening :=
  let tag := t.takeWhile isTagChar
  match languages.find? fun l => Text.lowerAscii tag == l.1 with
  | some l => ⟨some l.2, tag, t.drop tag.length⟩
  | none =>
    match gluedTag? t with
    | some l => ⟨some l.2, t.take l.1.length, t.drop l.1.length⟩
    | none => ⟨none, tag, t.drop tag.length⟩

end Graft.Response
