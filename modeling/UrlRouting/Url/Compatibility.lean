import UrlRouting.Text.Basic

/-!
# Characters that hide a delimiter

Some characters outside ASCII are compatible with a text that holds one of `/`, `?`, `#`, `@`
and `:`, as the fullwidth colon is with `:`. Under compatibility normalisation (NFKC) such a
character would move the ends of an authority, so an authority must not hold one. Composition
never makes or removes one of the five, so it is enough to look at single characters.

* `hidesDelimiter` finds these characters in a table, as of Unicode 14.
-/

namespace UrlRouting.Url

/-- Ranges of the characters whose compatibility decomposition holds a delimiter. -/
def delimiterCompatible : List (Nat × Nat) :=
  [(0x2047, 0x2049), (0x2100, 0x2101), (0x2105, 0x2106), (0x2A74, 0x2A74), (0xFE13, 0xFE13),
   (0xFE16, 0xFE16), (0xFE55, 0xFE56), (0xFE5F, 0xFE5F), (0xFE6B, 0xFE6B), (0xFF03, 0xFF03),
   (0xFF0F, 0xFF0F), (0xFF1A, 0xFF1A), (0xFF1F, 0xFF20)]

/-- Whether normalisation turns a character into a text with a delimiter of the authority. -/
def hidesDelimiter (c : Char) : Bool := Text.inRanges delimiterCompatible c

end UrlRouting.Url
