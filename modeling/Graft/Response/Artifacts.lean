import Graft.Response.Block

/-
The artifacts of a response.

  `artifacts t`      one artifact for each path, in the order in which the paths first appear;
  `parse? t`         the artifacts, if there are any;
  `emptyMessage`     the message when there are none.

Blocks whose path stands for nothing and blocks without texts are left out.  A later block for the
same path adds its texts and replaces those of the same kind.
-/
namespace Graft.Response

def addContents (path : Text) (c : Contents) : List Artifact → List Artifact
  | [] => [⟨path, c⟩]
  | a :: as =>
    if a.path = path then ⟨path, a.contents.override c⟩ :: as else a :: addContents path c as

/-- Adds a block to the artifacts before it. -/
def addBlock (as : List Artifact) (b : Block) : List Artifact :=
  match Artifact.cleanPath? b.path with
  | none => as
  | some path => if b.contents.isEmpty then as else addContents path b.contents as

def artifacts (t : Text) : List Artifact := (blocks t).foldl addBlock []

/-- The artifacts of a response that has any. -/
def parse? (t : Text) : Option (List Artifact) :=
  match artifacts t with
  | [] => none
  | as => some as

/-- The message for a response without artifacts. -/
def emptyMessage : Text :=
  "Model response did not contain any recognised fenced code block.".toList

end Graft.Response
