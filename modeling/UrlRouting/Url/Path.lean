import UrlRouting.Text.Percent

/-!
# Paths and their segments

A path is a text of segments between slashes. Empty segments count, and a path that starts with a
slash has an empty text before it.

* `Path.removeDots` resolves the segments `.` and `..`.
* `Path.escape` encodes what may not stand in a path and keeps the escapes that are there.
* `Segment.encode` writes any text as one segment, and `Segment.normalForm` writes what a segment
  decodes to, so that **all spellings of a segment have one normal form**. A segment whose octets
  form no text keeps its spelling.
-/

namespace UrlRouting

/-- Characters that stand for themselves in a segment. -/
def isSegmentSafe (c : Char) : Bool :=
  Text.Percent.isUnreserved c || "!$&'()*+,;=:@[]|^".toList.contains c

/-- Characters that stand for themselves in a path; a `%` is taken for an escape. -/
def isPathSafe (c : Char) : Bool := isSegmentSafe c || c = '/' || c = '%'

namespace Segment

/-- The segment that a text is written as. -/
def encode (t : Text) : Text := Text.Percent.encode isSegmentSafe t

/-- The one spelling of what a segment decodes to. -/
def normalForm (segment : Text) : Text :=
  match Text.Percent.decode? segment with
  | some t => encode t
  | none => segment

end Segment

namespace Path

/-- Encode the characters that may not stand in a path. -/
def escape (path : Text) : Text := Text.Percent.encode isPathSafe path

/-- Every segment in its normal form. -/
def normalForm (path : Text) : Text :=
  Text.join '/' ((path.splitOn '/').map Segment.normalForm)

/-- The segment that stays where it is. -/
def here : Text := ['.']

/-- The segment that goes one up. -/
def up : Text := ['.', '.']

/-- Resolve the dot segments of a list after the segments `kept`, the last of them first. In last
position a dot segment leaves an empty segment behind. -/
def resolveAfter (kept : List Text) : List Text → List Text
  | [] => kept.reverse
  | s :: rest =>
    if s = here then resolveAfter (if rest.isEmpty then [] :: kept else kept) rest
    else if s = up then resolveAfter (if rest.isEmpty then [] :: kept.tail else kept.tail) rest
    else resolveAfter (s :: kept) rest

/-- Resolve the dot segments of a path that starts with a slash; any other path is left alone. -/
def removeDots : Text → Text
  | '/' :: t => '/' :: Text.join '/' (resolveAfter [] (t.splitOn '/'))
  | path => path

end Path

end UrlRouting
