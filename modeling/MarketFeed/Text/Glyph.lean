/-!
# Glyphs

A text that is read from bytes may hold bytes that belong to no character. Its glyphs are the
characters, with a gap for each such byte.

## Main definitions

* `Glyph`: a character or a gap
* `glyphs`: the glyphs of a text, without gaps
-/

namespace MarketFeed.Text

/-- A character of a text, or a byte that no character can be decoded from. -/
abbrev Glyph := Option Char

/-- the glyphs of a text -/
def glyphs (s : String) : List Glyph := s.toList.map some

end MarketFeed.Text
