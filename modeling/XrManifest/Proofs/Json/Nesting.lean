import XrManifest.Proofs.Json.Phrases

/-!
# Brackets that stand open

How deep arrays and objects stand inside each other can be told from the tokens of a text:
it is the number of brackets that are open at the same time. `Nested depth level tokens`
says of a phrase that at most `depth` brackets are open at once and how many more are open
at its end than at its start. It is built up the way phrases are: by `single`, `join`,
`closed` and `opened`.
-/

namespace XrManifest.Json

/-! ## Counting brackets -/

/-- What a token adds to the number of open brackets. -/
def Token.change (token : Token) : Int :=
  if token.opens then 1 else if token.closes then -1 else 0

/-- How many brackets are open behind the tokens, when none is open in front of them. -/
def openBrackets : (tokens : List Token) → Int
  | [] => 0
  | token :: tokens => token.change + openBrackets tokens

theorem openBrackets_nil : openBrackets [] = 0 := rfl

theorem openBrackets_cons (token : Token) (tokens : List Token) :
    openBrackets (token :: tokens) = token.change + openBrackets tokens := rfl

theorem openBrackets_append (tokens others : List Token) :
    openBrackets (tokens ++ others) = openBrackets tokens + openBrackets others := by
  induction tokens with
  | nil => exact (Int.zero_add _).symm
  | cons token tokens ih =>
    rw [List.cons_append, openBrackets_cons, openBrackets_cons, ih, Int.add_assoc]

/-- So many brackets are open at once somewhere among the tokens. -/
def NestsTo (depth : Nat) (tokens : List Token) : Prop :=
  ∃ front, front <+: tokens ∧ (depth : Int) ≤ openBrackets front

/-! ## Phrases with their depth -/

/-- A phrase in which at most `depth` brackets are open at once and which leaves `level` of
them open. The level is below zero where the phrase closes a bracket from in front of it. -/
structure Nested (depth : Nat) (level : Int) (tokens : List Token) : Prop
    extends Phrase tokens where
  within : ∀ front, front <+: tokens → openBrackets front ≤ depth
  level_eq : openBrackets tokens = level

namespace Nested

variable {depth : Nat} {level : Int} {tokens others : List Token}

theorem within_nil (depth : Nat) :
    ∀ front : List Token, front <+: [] → openBrackets front ≤ depth := by
  intro front hfront
  rw [List.prefix_nil.1 hfront]
  exact Int.natCast_nonneg depth

/-- What stands behind a token starts at the level that the token leads to. -/
theorem within_cons {a : Token} {limit : Nat} (ha : a.change + depth ≤ limit)
    (htokens : ∀ front, front <+: tokens → openBrackets front ≤ depth) :
    ∀ front, front <+: a :: tokens → openBrackets front ≤ limit := by
  intro front hfront
  rcases List.prefix_cons_iff.1 hfront with rfl | ⟨rest, rfl, hrest⟩
  · exact Int.natCast_nonneg limit
  · have hbound := htokens rest hrest
    rw [openBrackets_cons]
    omega

/-- A token that is a value opens and closes nothing. -/
theorem single {a : Token} (hstarts : a.startsValue = true) (hends : a.endsValue = true)
    (hlevel : a.change = 0) : Nested depth 0 [a] := by
  have hsum : openBrackets [a] = 0 := by
    rw [openBrackets_cons, openBrackets_nil, hlevel]
    rfl
  exact ⟨.single hstarts hends, within_cons (by omega) (within_nil depth), hsum⟩

/-- What stands behind a value starts at the level in front of it. -/
theorem within_append (h : Nested depth 0 tokens)
    (hothers : ∀ front, front <+: others → openBrackets front ≤ depth) :
    ∀ front, front <+: tokens ++ others → openBrackets front ≤ depth := by
  rintro front ⟨behind, heq⟩
  rcases List.append_eq_append_iff.1 heq with ⟨inner, htokens, -⟩ | ⟨inner, rfl, hinner⟩
  · exact h.within front ⟨inner, htokens.symm⟩
  · have hbound := hothers inner ⟨behind, hinner.symm⟩
    rw [openBrackets_append, h.level_eq]
    omega

/-- A value, a comma or a colon, and more. -/
theorem join {m : Mark} (hm : m = .comma ∨ m = .colon) (htokens : Nested depth 0 tokens)
    (hothers : Nested depth level others) : Nested depth level (tokens ++ .mark m :: others) := by
  have hchange : (Token.mark m).change = 0 := by rcases hm with rfl | rfl <;> rfl
  refine ⟨htokens.toPhrase.join hm hothers.toPhrase, ?_, ?_⟩
  · exact htokens.within_append (within_cons (by omega) hothers.within)
  · rw [openBrackets_append, openBrackets_cons, htokens.level_eq, hothers.level_eq, hchange]
    omega

/-- A value and a closing bracket. -/
theorem closed {m : Mark} (hm : m = .arrayClose ∨ m = .objectClose)
    (htokens : Nested depth 0 tokens) : Nested depth (-1) (tokens ++ [.mark m]) := by
  have hchange : (Token.mark m).change = -1 := by rcases hm with rfl | rfl <;> rfl
  refine ⟨htokens.toPhrase.closed hm, ?_, ?_⟩
  · exact htokens.within_append (within_cons (by omega) (within_nil depth))
  · rw [openBrackets_append, openBrackets_cons, openBrackets_nil, htokens.level_eq, hchange]
    rfl

/-- An opening bracket and all up to the one that closes it. -/
theorem opened {m : Mark} (hm : m = .arrayOpen ∨ m = .objectOpen)
    (htokens : Nested depth (-1) tokens) : Nested (depth + 1) 0 (.mark m :: tokens) := by
  have hchange : (Token.mark m).change = 1 := by rcases hm with rfl | rfl <;> rfl
  refine ⟨htokens.toPhrase.opened hm, within_cons (by omega) htokens.within, ?_⟩
  rw [openBrackets_cons, htokens.level_eq, hchange]
  rfl

/-- An opening bracket and the one that closes it. -/
theorem pair {start close : Mark} (hmarks : (start = .arrayOpen ∧ close = .arrayClose) ∨
      (start = .objectOpen ∧ close = .objectClose)) :
    Nested (depth + 1) 0 [.mark start, .mark close] := by
  have hopen : (Token.mark start).change = 1 := by rcases hmarks with ⟨rfl, -⟩ | ⟨rfl, -⟩ <;> rfl
  have hclose : (Token.mark close).change = -1 := by rcases hmarks with ⟨-, rfl⟩ | ⟨-, rfl⟩ <;> rfl
  have hinner : ∀ front, front <+: [.mark close] → openBrackets front ≤ depth :=
    within_cons (by omega) (within_nil depth)
  refine ⟨?_, within_cons (by omega) hinner, ?_⟩
  · rcases hmarks with ⟨rfl, rfl⟩ | ⟨rfl, rfl⟩ <;>
      exact ⟨by simp [Token.admits, Token.startsValue, Token.endsValue, Token.opens,
        Token.closes], ⟨_, rfl, rfl⟩, ⟨_, rfl, rfl⟩⟩
  · rw [openBrackets_cons, openBrackets_cons, openBrackets_nil, hopen, hclose]
    rfl

/-- No more brackets are open at once than the depth allows. -/
theorem not_nestsTo (h : Nested depth level tokens) : ¬ NestsTo (depth + 1) tokens := by
  rintro ⟨front, hfront, hopen⟩
  have hbound := h.within front hfront
  omega

end Nested

end XrManifest.Json
