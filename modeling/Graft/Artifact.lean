import Graft.Name
import Graft.Text.Space

/-
Generated artifacts.

  `Kind`                 script, markup or style, in the order in which files are written;
  `Contents`             at most one text of each kind;
  `Artifact`             a path with contents;
  `Artifact.filePath`    the path of the file that holds one kind;
  `Artifact.cleanPath?`  the relative path that an announced path stands for.

Contents hold one field for each kind, so the order of kinds is that of the type, whatever the
order in which texts are set.
-/
namespace Graft

/-- What a generated text is. -/
inductive Kind where
  | script
  | markup
  | style
  deriving DecidableEq, Repr

namespace Kind

/-- The kinds in the order in which their files are written. -/
def all : List Kind := [script, markup, style]

/-- The extensions of files of a kind; new files take the first. -/
def extensions : Kind → List Text
  | script => ["ts".toList]
  | markup => ["html".toList]
  | style => ["scss".toList, "css".toList]

/-- The extension that new files of a kind take. -/
def extension : Kind → Text
  | script => "ts".toList
  | markup => "html".toList
  | style => "scss".toList

def name : Kind → Text
  | script => "script".toList
  | markup => "markup".toList
  | style => "style".toList

def ofName? (t : Text) : Option Kind := all.find? fun k => k.name == t

/-- The kind whose extensions hold a lower-case extension without dots. -/
def ofExtension? (extension : Text) : Option Kind :=
  all.find? fun k => k.extensions.contains extension

/-- The kind that an extension stands for, in any case and with any dots before it. -/
def ofWrittenExtension? (extension : Text) : Option Kind :=
  ofExtension? ((Text.lowercase extension).dropWhile (· == '.'))

end Kind

/-- At most one text of each kind. -/
structure Contents where
  script : Option Text := none
  markup : Option Text := none
  style : Option Text := none
  deriving DecidableEq, Repr

namespace Contents

def get? (c : Contents) : Kind → Option Text
  | .script => c.script
  | .markup => c.markup
  | .style => c.style

def set (c : Contents) (k : Kind) (t : Text) : Contents :=
  match k with
  | .script => { c with script := some t }
  | .markup => { c with markup := some t }
  | .style => { c with style := some t }

def kinds (c : Contents) : List Kind := Kind.all.filter fun k => (c.get? k).isSome

def isEmpty (c : Contents) : Bool := c.script.isNone && c.markup.isNone && c.style.isNone

/-- The texts of `later` where it has any, else those of `c`. -/
def override (c later : Contents) : Contents where
  script := later.script.or c.script
  markup := later.markup.or c.markup
  style := later.style.or c.style

@[simp] theorem get?_set (c : Contents) (k j : Kind) (t : Text) :
    (c.set k t).get? j = if j = k then some t else c.get? j := by
  cases k <;> cases j <;> simp [set, get?]

@[simp] theorem get?_override (c later : Contents) (k : Kind) :
    (c.override later).get? k = (later.get? k).or (c.get? k) := by
  cases k <;> rfl

end Contents

/-- A generated artifact: a path, and what is held under it. -/
structure Artifact where
  path : Text
  contents : Contents
  deriving DecidableEq, Repr

namespace Artifact

/-- The relative path that an announced path stands for: slashes for backslashes, none in front,
and the segments collapsed.  A path that names nothing or leads upwards stands for none. -/
def cleanPath? (announced : Text) : Option Text :=
  match Path.collapse false
      (Path.split ((Path.forward (Text.stripped announced)).dropWhile Path.isSlash)) with
  | [] => none
  | s :: ss => if s = Path.above then none else some (Path.join (s :: ss))

def id (a : Artifact) : Text := Name.id a.path

/-- The path of the file that holds the text of a kind: the path itself when its extension stands
for the kind, else the path with the kind's extension in place of one that stands for another. -/
def pathFor (path : Text) (k : Kind) : Text :=
  let extension := Path.extension path
  if k.extensions.contains extension then path
  else
    let stem :=
      if (Kind.ofExtension? extension).isSome then
        path.take (path.length - (extension.length + 1))
      else path
    stem ++ '.' :: k.extension

/-- The path of the file that holds a kind. -/
def filePath (a : Artifact) (k : Kind) : Text := pathFor a.path k

/-- The files of an artifact, as path, kind and text, in writing order. -/
def files (a : Artifact) : List (Text × Kind × Text) :=
  Kind.all.filterMap fun k => (a.contents.get? k).map fun t => (a.filePath k, k, t)

end Artifact
end Graft
