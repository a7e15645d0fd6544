/-!
# C++ string literals

A text in quotes. The quote and the backslash stand behind a backslash, a line
break is written `\n`, and every other character stands for itself.
-/

namespace XrManifest.Cpp

/-- How a character is written inside a string literal. -/
def escapeChar (c : Char) : List Char :=
  if c = '"' then ['\\', '"']
  else if c = '\\' then ['\\', '\\']
  else if c = '\n' then ['\\', 'n']
  else [c]

def stringLiteral (text : String) : String :=
  String.ofList ('"' :: text.toList.flatMap escapeChar ++ ['"'])

end XrManifest.Cpp
