import Graft.Response.Fence
import Graft.Response.Marker
import Graft.Text.Lines

/-
The blocks of a response.

A block begins with a marker line and extends to the next one.  Its fenced parts hold the texts of
an artifact; everything else in it is prose.

  `Block`        the announced path and the texts by kind;
  `blocks t`     the blocks of a response, in order.

Lines are read one after another, either outside or inside a fence.  A marker ends whatever is open,
a fence that is never closed ends with its block, and a fenced part of no known kind is dropped.  A
fence without a tag takes its kind from the extension of the announced path.
-/
namespace Graft.Response

/-- A marker's path and the texts found under it. -/
structure Block where
  path : Text
  contents : Contents := {}
  deriving DecidableEq, Repr

/-- A fenced part that is still open. -/
structure Fenced where
  -- The kind of the part, if it is known.
  kind : Option Kind
  lines : List Text := []
  deriving DecidableEq, Repr

/-- A block that is still open, with the fenced part that is open in it. -/
structure OpenBlock where
  block : Block
  fenced : Option Fenced := none
  deriving DecidableEq, Repr

/-- The text of a fenced part: without blank lines in front and white space at the end. -/
def partText (lines : List Text) : Text :=
  Text.trimRight isSpace (List.intercalate ['\n'] (lines.dropWhile Text.isBlank))

/-- The block with a fenced part added. -/
def Block.add (b : Block) (f : Fenced) : Block :=
  match f.kind with
  | some k => { b with contents := b.contents.set k (partText f.lines) }
  | none => b

/-- The block with what is open in it closed. -/
def OpenBlock.close (o : OpenBlock) : Block :=
  match o.fenced with
  | some f => o.block.add f
  | none => o.block

/-- A line inside a fenced part: it belongs to the part up to a fence, which closes the part. -/
def OpenBlock.readFenced (b : Block) (f : Fenced) (line : Text) : OpenBlock :=
  match Text.before? fence line with
  | none => ⟨b, some { f with lines := f.lines ++ [line] }⟩
  | some part => ⟨b.add { f with lines := f.lines ++ [part] }, none⟩

/-- The text that follows an opening fence and its tag, less one space. -/
def afterTag : Text → Text
  | ' ' :: cs => cs
  | t => t

/-- A line outside of fences: one that starts with a fence opens a part, and what follows the tag is
the part's first line unless it is blank. -/
def OpenBlock.readProse (b : Block) (line : Text) : OpenBlock :=
  match Text.after? fence (skipSpace line) with
  | none => ⟨b, none⟩
  | some rest =>
    let opening := Opening.ofText rest
    let kind :=
      if opening.kind.isNone && opening.tag.isEmpty then
        Kind.ofWrittenExtension? (Path.extension b.path)
      else opening.kind
    let line := afterTag opening.rest
    if Text.isBlank line then ⟨b, some { kind }⟩ else readFenced b { kind } line

/-- Reads a line that is no marker. -/
def OpenBlock.read (o : OpenBlock) (line : Text) : OpenBlock :=
  match o.fenced with
  | some f => readFenced o.block f line
  | none => readProse o.block line

/-- The blocks of the lines that follow when `current` is open. -/
def blocksFrom (current : Option OpenBlock) : List Text → List Block
  | [] => (current.map OpenBlock.close).toList
  | line :: lines =>
    match marker? line with
    | some path =>
      (current.map OpenBlock.close).toList ++ blocksFrom (some ⟨⟨path, {}⟩, none⟩) lines
    | none => blocksFrom (current.map fun o => o.read line) lines

def blocks (t : Text) : List Block := blocksFrom none (Text.lines t)

end Graft.Response
