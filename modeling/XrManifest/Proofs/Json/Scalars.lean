import XrManifest.Proofs.Json.Tokens
import XrManifest.Proofs.Outcomes

/-!
# Words and strings

The readers of values without parts take exactly one token: what they read is fixed by
the characters of the token, and the text behind it is left as it is. There is one
lemma for each reader, `readWord_eq_ok` and `Quoted.read_token`.
-/

namespace XrManifest.Json

/-! ## Words -/

/-- A word is read letter by letter. -/
theorem readWord_eq_ok {word text rest : List Char} {value v : Json} :
    readWord word value text = .ok (v, rest) ↔ text = word ++ rest ∧ v = value := by
  induction word generalizing text with
  | nil =>
    simp only [readWord, Except.ok.injEq, Prod.mk.injEq, List.nil_append]
    exact ⟨fun ⟨hv, hrest⟩ => ⟨hrest, hv.symm⟩, fun ⟨hrest, hv⟩ => ⟨hv.symm, hrest⟩⟩
  | cons letter word ih =>
    cases text with
    | nil => simp [readWord]
    | cons c text =>
      by_cases hc : c = letter
      · simp [readWord, hc, ih]
      · simp [readWord, hc]

/-! ## Strings -/

namespace Quoted

/-- Characters that an escape has taken are passed over. -/
theorem readFrom_skip (skip : Nat) (text : List Char) :
    readFrom skip text = readFrom 0 (text.drop skip) := by
  induction text generalizing skip with
  | nil => cases skip <;> simp [readFrom]
  | cons c text ih =>
    cases skip with
    | zero => rfl
    | succ skip => simpa [readFrom] using ih skip

/-- A text that stands for itself inside a string: no quote and no backslash. -/
def Plain (text : List Char) : Prop := ∀ c ∈ text, c ≠ '"' ∧ c ≠ '\\'

/-- Characters that stand for themselves can be put in front of what stands in a string. -/
theorem Plain.enclosed {text inside : List Char} (h : Plain text) (hinside : Enclosed inside) :
    Enclosed (text ++ inside) := by
  induction text with
  | nil => exact hinside
  | cons c text ih =>
    rcases h c (by simp) with ⟨hquote, hslash⟩
    exact .plain hquote hslash (ih fun d hd => h d (by simp [hd]))

/-- A hexadecimal digit stands for itself in a string. -/
theorem hexDigit_plain {c : Char} {n : Nat} (h : hexDigit? c = some n) : c ≠ '"' ∧ c ≠ '\\' := by
  constructor
  · rintro rfl
    have hnone : hexDigit? '"' = none := by decide
    exact absurd (hnone.symm.trans h) nofun
  · rintro rfl
    have hnone : hexDigit? '\\' = none := by decide
    exact absurd (hnone.symm.trans h) nofun

/-- A code of four hexadecimal digits is read from these digits alone. -/
theorem hexQuad_eq_ok {text : List Char} {code : Nat} (h : hexQuad text = .ok code) :
    ∃ digits tail, text = digits ++ tail ∧ digits.length = 4 ∧ Plain digits ∧
      ∀ other, hexQuad (digits ++ other) = .ok code := by
  rcases text with _ | ⟨a, _ | ⟨b, _ | ⟨c, _ | ⟨d, tail⟩⟩⟩⟩
  case cons.cons.cons.cons =>
    have hquad : hexQuad? (a :: b :: c :: d :: tail) = some code := by
      unfold hexQuad at h
      split at h
      · next heq => rw [heq, Except.ok.inj h]
      · split at h <;> cases h
    -- four digits hold neither a quote nor a backslash
    have hplain : Plain [a, b, c, d] := by
      simp only [hexQuad?, Option.bind_eq_bind, Option.bind_eq_some_iff] at hquad
      rcases hquad with ⟨_, ha, _, hb, _, hc, _, hd, -⟩
      simp [Plain, hexDigit_plain ha, hexDigit_plain hb, hexDigit_plain hc, hexDigit_plain hd]
    refine ⟨[a, b, c, d], tail, rfl, rfl, hplain, fun other => ?_⟩
    unfold hexQuad
    rw [show hexQuad? ([a, b, c, d] ++ other) = some code from hquad]
  all_goals
    simp only [hexQuad, hexQuad?] at h
    split at h <;> cases h

/-- The characters of a code leave a string in one piece, and what they stand for
depends on nothing behind them. -/
theorem unicodeEscape_eq_ok {text : List Char} {d : Char} {count : Nat}
    (h : unicodeEscape text = .ok (d, count)) :
    ∃ piece tail, text = piece ++ tail ∧ piece.length = count ∧
      (∀ inside, Enclosed inside → Enclosed (piece ++ inside)) ∧
      ∀ other, unicodeEscape (piece ++ other) = .ok (d, count) := by
  rcases bind_eq_ok.1 h with ⟨code, hcode, h⟩
  rcases hexQuad_eq_ok hcode with ⟨digits, tail, rfl, hlength, hplain, hdigits⟩
  have hdrop : ∀ other, (digits ++ other).drop 4 = other := by
    intro other
    rw [← hlength, List.drop_left]
  -- a high surrogate takes the escape behind it along, any other code stands alone
  by_cases hlow : isLowSurrogate code
  · simp [hlow] at h
  by_cases hhigh : isHighSurrogate code
  · simp only [hlow, hhigh, hdrop, if_true, if_false, Bool.false_eq_true] at h
    split at h
    case h_1 rest heq =>
      rcases bind_eq_ok.1 h with ⟨low, hquad, h⟩
      rcases hexQuad_eq_ok hquad with ⟨digits', tail', rfl, hlength', hplain', hdigits'⟩
      by_cases hpair : isLowSurrogate low
      · rw [if_pos hpair] at h
        rcases Prod.mk.inj (Except.ok.inj h) with ⟨rfl, rfl⟩
        refine ⟨digits ++ '\\' :: 'u' :: digits', tail', by simp, by simp [hlength, hlength'],
          fun inside hinside => ?_, fun other => ?_⟩
        · rw [List.append_assoc]
          exact hplain.enclosed (.escaped (hplain'.enclosed hinside))
        · rw [List.append_assoc]
          refine bind_eq_ok.2 ⟨code, hdigits _, ?_⟩
          simp only [hlow, hhigh, hdrop, if_true, if_false, Bool.false_eq_true, List.cons_append]
          exact bind_eq_ok.2 ⟨low, hdigits' _, by rw [if_pos hpair]; rfl⟩
      · rw [if_neg hpair] at h
        cases h
    all_goals cases h
  · simp only [hlow, hhigh, if_false, Bool.false_eq_true] at h
    rcases Prod.mk.inj (Except.ok.inj h) with ⟨rfl, rfl⟩
    refine ⟨digits, tail, rfl, hlength, fun inside => hplain.enclosed, fun other => ?_⟩
    refine bind_eq_ok.2 ⟨code, hdigits _, ?_⟩
    simp only [hlow, hhigh, if_false, Bool.false_eq_true]
    rfl

/-- A backslash and the escape behind it are one unit of a string. -/
theorem escape_eq_ok {text : List Char} {d : Char} {count : Nat}
    (h : escape text = .ok (d, count)) :
    ∃ piece tail, text = piece ++ tail ∧ piece.length = count ∧
      (∀ inside, Enclosed inside → Enclosed ('\\' :: (piece ++ inside))) ∧
      ∀ other, escape (piece ++ other) = .ok (d, count) := by
  unfold escape at h
  split at h
  case h_1 => cases h
  -- `u` and the digits of a code unit, or of two
  case h_2 rest =>
    rcases map_eq_ok.1 h with ⟨⟨c, n⟩, hcode, hpair⟩
    rcases Prod.mk.inj hpair with ⟨rfl, rfl⟩
    rcases unicodeEscape_eq_ok hcode with ⟨piece, tail, rfl, rfl, hinside, hother⟩
    refine ⟨'u' :: piece, tail, rfl, rfl, fun inside hin => .escaped (hinside inside hin),
      fun other => ?_⟩
    exact map_eq_ok.2 ⟨_, hother other, rfl⟩
  -- any other letter is the whole escape
  case h_3 letter rest hu =>
    split at h
    case h_2 => cases h
    case h_1 c hc =>
      rcases Prod.mk.inj (Except.ok.inj h) with ⟨rfl, rfl⟩
      refine ⟨[letter], rest, rfl, rfl, fun inside hin => .escaped hin, fun other => ?_⟩
      unfold escape
      split
      case h_1 heq => cases heq
      case h_2 heq => exact absurd (List.cons.inj heq).1 hu
      case h_3 heq =>
        rcases List.cons.inj heq with ⟨rfl, -⟩
        rw [hc]

/-- What is read up to the closing quote is read whatever stands behind it. -/
theorem readFrom_eq_ok {text rest cs : List Char} (h : readFrom 0 text = .ok (cs, rest)) :
    ∃ inside, Enclosed inside ∧ text = inside ++ '"' :: rest ∧
      ∀ other, readFrom 0 (inside ++ '"' :: other) = .ok (cs, other) := by
  -- an escape is passed over at once, so the induction is on the length of the text
  induction hn : text.length using Nat.strongRecOn generalizing text cs with
  | ind n ih =>
  cases text with
  | nil => cases h
  | cons c text =>
    simp only [readFrom] at h
    split at h
    case isTrue hquote =>
      rcases Prod.mk.inj (Except.ok.inj h) with ⟨rfl, rfl⟩
      subst hquote
      exact ⟨[], .nil, rfl, fun other => by simp [readFrom]⟩
    case isFalse hquote =>
    split at h
    case isTrue hslash =>
      subst hslash
      split at h
      case h_1 => cases h
      case h_2 d count hescape =>
        rcases escape_eq_ok hescape with ⟨piece, tail, rfl, rfl, hpiece, hother⟩
        rcases map_eq_ok.1 h with ⟨⟨ds, rest'⟩, hread, hpair⟩
        rcases Prod.mk.inj hpair with ⟨rfl, rfl⟩
        rw [readFrom_skip, List.drop_left] at hread
        have hlength : tail.length < n := by
          rw [← hn, List.length_cons, List.length_append]
          omega
        rcases ih _ hlength hread rfl with ⟨inside, hinside, rfl, hreads⟩
        refine ⟨'\\' :: (piece ++ inside), hpiece inside hinside, by simp, fun other => ?_⟩
        simp only [List.cons_append, List.append_assoc, readFrom, hother, if_true]
        rw [if_neg (by decide), readFrom_skip, List.drop_left, hreads]
        rfl
    case isFalse hslash =>
    split at h
    case isTrue => cases h
    case isFalse hcontrol =>
      rcases map_eq_ok.1 h with ⟨⟨ds, rest'⟩, hread, hpair⟩
      rcases Prod.mk.inj hpair with ⟨rfl, rfl⟩
      rcases ih _ (by simp [← hn]) hread rfl with ⟨inside, hinside, rfl, hreads⟩
      refine ⟨c :: inside, .plain hquote hslash hinside, rfl, fun other => ?_⟩
      simp only [List.cons_append, readFrom, hquote, hslash, hcontrol, hreads, if_false]
      rfl

/-- A string is read from what stands in front of its closing quote. -/
theorem read_token {text rest : List Char} {s : String} (h : read text = .ok (s, rest)) :
    ∃ inside, Enclosed inside ∧ text = inside ++ '"' :: rest ∧
      ∀ other, read (inside ++ '"' :: other) = .ok (s, other) := by
  rcases map_eq_ok.1 h with ⟨⟨cs, rest'⟩, hread, hpair⟩
  rcases Prod.mk.inj hpair with ⟨rfl, rfl⟩
  rcases readFrom_eq_ok hread with ⟨inside, hinside, rfl, hreads⟩
  exact ⟨inside, hinside, rfl, fun other => map_eq_ok.2 ⟨_, hreads other, rfl⟩⟩

end Quoted

end XrManifest.Json
