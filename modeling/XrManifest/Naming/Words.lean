/-!
# Words of a name

A name is read as a list of words. Two readings are in use:

* `runs keep` cuts a text into its maximal runs of characters that satisfy
  `keep`; nothing else of the text matters.
* `caseWords` cuts a run of ASCII letters and digits further, where the case of
  its letters says that a new word starts: `grabValue` has the words `grab` and
  `Value`, `XMLHttp` has the words `XML` and `Http`.
-/

namespace XrManifest.Naming

/-- The maximal runs of characters of `text` that satisfy `keep`, in order. -/
def runs (keep : Char → Bool) (text : List Char) : List (List Char) :=
  (text.splitOnP fun c => !keep c).filter fun run => !run.isEmpty

/-- The case of the last letter of a word that has one. -/
inductive Cased where
  | none
  | lower
  | upper
deriving DecidableEq, Repr

/-- The case seen last once `c` is read after `seen`. -/
def Cased.after (seen : Cased) (c : Char) : Cased :=
  if c.isLower then .lower else if c.isUpper then .upper else seen

/-- Puts a character in front of the first of a list of words. -/
def extendFirst (c : Char) : List (List Char) → List (List Char)
  | [] => [[c]]
  | word :: rest => (c :: word) :: rest

/-- The words of `run`, when a word whose last cased letter is `seen` is already
open: the first word of the result continues the open one, which may be by
nothing.

A word ends after a character when the case seen up to it is lower and an
upper-case letter follows. A word ends before an upper-case letter when the
case seen is upper already and a lower-case letter follows. -/
def caseWordsFrom (seen : Cased) : List Char → List (List Char)
  | [] => [[]]
  | [c] => [[c]]
  | c :: next :: rest =>
    if seen.after c = .lower ∧ next.isUpper then
      [c] :: caseWordsFrom .none (next :: rest)
    else if seen = .upper ∧ c.isUpper ∧ next.isLower then
      [] :: extendFirst c (caseWordsFrom .none (next :: rest))
    else
      extendFirst c (caseWordsFrom (seen.after c) (next :: rest))

/-- The words that the case of its letters cuts a run into. -/
def caseWords (run : List Char) : List (List Char) := caseWordsFrom .none run

end XrManifest.Naming
