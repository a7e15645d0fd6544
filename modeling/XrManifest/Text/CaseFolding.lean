/-!
# Comparison without regard to case

Schema properties, action types and naming styles are recognised in any case
of the letters `a` to `z`; every other character stands for itself only.
-/

namespace XrManifest.Text

/-- The text with the letters `A` to `Z` in lower case. -/
def folded (text : String) : List Char := text.toList.map Char.toLower

/-- Whether two texts differ at most in the case of the letters `a` to `z`. -/
def sameFolded (left right : String) : Bool := folded left == folded right

/-- The first entry of a table of spellings whose spelling is `text` in some case. -/
def findFolded? {α : Type} (table : List (String × α)) (text : String) : Option α :=
  (table.find? fun entry => sameFolded entry.1 text).map Prod.snd

end XrManifest.Text
