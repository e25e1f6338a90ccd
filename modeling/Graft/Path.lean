import Graft.Text.Lowercase

/-
Paths as lists of segments.

  `Path.split t`              the segments between slashes, empty ones included;
  `Path.collapse rooted ss`   segments without empty, `.` and inner `..` ones;
  `Path.normal t`             a relative path with its segments collapsed;
  `Path.tidy t`               a path without its empty and `.` segments;
  `Path.locate base t`        the rooted segments that `t` names, seen from `base`;
  `Path.extension t`          the lower-case extension of the last segment;
  `Path.relative? base a b`   the path that leads from the directory `b` to `a`.

Design notes.  Collapsing keeps a stack of segments, nearest first.  A `..` takes the segment below
it off the stack; with none to take it stays, or is dropped in a rooted path, where nothing lies
above the root.
-/
namespace Graft.Path

/-- The segment that stands for the directory itself. -/
def here : Text := ['.']

/-- The segment that stands for the directory above. -/
def above : Text := ['.', '.']

def forward (t : Text) : Text := t.map fun c => if c = '\\' then '/' else c

def isSlash (c : Char) : Bool := c = '/'

/-- The segments between slashes, empty ones included. -/
def split (t : Text) : List Text := t.splitOn '/'

/-- The text of segments, with a slash between neighbours. -/
def join (segments : List Text) : Text := List.intercalate ['/'] segments

/-- The segments that name something: neither empty nor `.`. -/
def named (t : Text) : List Text := (split t).filter fun s => !(s.isEmpty || s == here)

def push (rooted : Bool) (stack : List Text) (segment : Text) : List Text :=
  if segment = [] ∨ segment = here then stack
  else if segment = above then
    match stack with
    | [] => if rooted then [] else [above]
    | top :: rest => if top = above then above :: stack else rest
  else segment :: stack

/-- The segments that remain when empty, `.` and `..` segments are resolved. -/
def collapse (rooted : Bool) (segments : List Text) : List Text :=
  (segments.foldl (push rooted) []).reverse

/-- A relative path with its segments collapsed; `.` when none remain. -/
def normal (t : Text) : Text :=
  match collapse false (split t) with
  | [] => here
  | ss => join ss

/-- The rooted segments that a path names, seen from the directory `base`. -/
def locate (base : List Text) (t : Text) : List Text :=
  match t with
  | '/' :: _ => collapse true (split t)
  | _ => collapse true (base ++ split t)

/-- A path without its empty and `.` segments.  Two slashes in front, no more and no fewer, are
kept; a path that names nothing is `.`. -/
def tidy (t : Text) : Text :=
  match (t.takeWhile isSlash).length, named t with
  | 0, [] => here
  | 0, ss => join ss
  | 2, ss => '/' :: '/' :: join ss
  | _, ss => '/' :: join ss

/-- The last segment, empty after a trailing slash. -/
def lastSegment (t : Text) : Text := (t.reverse.takeWhile fun c => !isSlash c).reverse

/-- The directory part: what stands before the last slash, without trailing slashes. -/
def directory (t : Text) : Text :=
  Text.trimRight isSlash (t.take (t.length - (lastSegment t).length))

/-- What follows the last dot of a segment, with the dots that begin the segment not counted;
empty when there is no other dot. -/
def rawExtension (segment : Text) : Text :=
  let tail := (segment.reverse.takeWhile (· != '.')).reverse
  let stem := segment.take (segment.length - (tail.length + 1))
  if stem.any (· != '.') then tail else []

/-- The lower-case extension of the last segment, without its dot. -/
def extension (t : Text) : Text := Text.lowercase (rawExtension (lastSegment t))

/-- Drops the segments that two paths begin with in common. -/
def dropCommon : List Text → List Text → List Text × List Text
  | a :: as, b :: bs => if a = b then dropCommon as bs else (a :: as, b :: bs)
  | as, bs => (as, bs)

/-- The path that leads from one rooted directory to a rooted path. -/
def lead (goal dir : List Text) : Text :=
  let (goal, dir) := dropCommon goal dir
  match dir.map (fun _ => above) ++ goal with
  | [] => here
  | ss => join ss

/-- The path that leads from the directory `start` to `target`, both seen from `base`; an empty
target names nothing. -/
def relative? (base : List Text) (target start : Text) : Option Text :=
  if target.isEmpty then none else some (lead (locate base target) (locate base start))

end Graft.Path
