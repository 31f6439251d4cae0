import StyleGuide.Json.Basic

/-!
# Places in sources

Where a comment block stands. What is read from a file has its path and the numbers of its
lines there; a caller may name places by any other values.
-/

namespace StyleGuide

/-- A file, and the first and the last line of something in it. -/
structure Place where
  file : Json := .str ""
  start : Json := .int 0
  stop : Json := .int 0
  deriving Inhabited

end StyleGuide
