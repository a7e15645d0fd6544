import Mathlib.Data.Nat.Digits.Lemmas
import XrManifest.Proofs.Json.NumberTokens
import XrManifest.Proofs.Json.Scalars

/-!
# How strings and integers are written

A string can be written in many ways: `Quoted.WritesChars` lets every character stand for
itself or as an escape. An integer is written by its decimal digits. Whatever way is taken,
the readers give the string and the integer back (`Quoted.WritesChars.read`,
`Number.read_toString`).
-/

namespace XrManifest.Json

/-! ## Strings -/

namespace Quoted

/-- The hexadecimal digits of a number below 16, in lower and in upper case. -/
def IsHexDigit (n : Nat) (c : Char) : Prop := n < 16 ∧ (c = n.digitChar ∨ c = n.digitChar.toUpper)

/-- The four hexadecimal digits that write a code unit. -/
def IsHexQuad (code : Nat) (digits : List Char) : Prop :=
  List.Forall₂ IsHexDigit [code / 0x1000, code / 0x100 % 0x10, code / 0x10 % 0x10, code % 0x10]
    digits

instance (n : Nat) (c : Char) : Decidable (IsHexDigit n c) := inferInstanceAs (Decidable (_ ∧ _))

instance (code : Nat) (digits : List Char) : Decidable (IsHexQuad code digits) :=
  inferInstanceAs (Decidable (List.Forall₂ _ _ _))

/-- The letters of the short escapes with the characters they stand for. -/
def shortEscapes : List (Char × Char) :=
  [('"', '"'), ('\\', '\\'), ('/', '/'), ('b', '\x08'), ('f', '\x0c'), ('n', '\n'), ('r', '\r'),
    ('t', '\t')]

/-- How a character can be written inside quotes: as itself, by a short escape, by its code
unit or, outside the first 0x10000 characters, by the two code units of a surrogate pair. -/
inductive WritesChar : Char → List Char → Prop where
  | raw {c : Char} : c ≠ '"' → c ≠ '\\' → 0x20 ≤ c.toNat → WritesChar c [c]
  | short {letter c : Char} : (letter, c) ∈ shortEscapes → WritesChar c ['\\', letter]
  | unit {c : Char} {digits : List Char} :
      IsHexQuad c.toNat digits → WritesChar c ('\\' :: 'u' :: digits)
  | pair {c : Char} {high low : List Char} : 0x10000 ≤ c.toNat →
      IsHexQuad (0xD800 + (c.toNat - 0x10000) / 0x400) high →
      IsHexQuad (0xDC00 + (c.toNat - 0x10000) % 0x400) low →
      WritesChar c ('\\' :: 'u' :: (high ++ '\\' :: 'u' :: low))

/-- How the characters of a string can be written inside quotes, each in its own way. -/
inductive WritesChars : List Char → List Char → Prop where
  | nil : WritesChars [] []
  | cons {c : Char} {cs piece inside : List Char} :
      WritesChar c piece → WritesChars cs inside → WritesChars (c :: cs) (piece ++ inside)

/-- A hexadecimal digit is read in either case. -/
theorem IsHexDigit.hexDigit {n : Nat} {c : Char} (h : IsHexDigit n c) : hexDigit? c = some n := by
  have hdigits : ∀ n < 16, hexDigit? n.digitChar = some n ∧
      hexDigit? n.digitChar.toUpper = some n := by decide
  obtain ⟨hlt, rfl | rfl⟩ := h
  · exact (hdigits n hlt).1
  · exact (hdigits n hlt).2

namespace IsHexQuad

variable {code : Nat} {digits : List Char}

/-- There are four digits, from the most significant one on. -/
theorem exists_digits (h : IsHexQuad code digits) :
    ∃ a b c d, digits = [a, b, c, d] ∧ IsHexDigit (code / 0x1000) a ∧
      IsHexDigit (code / 0x100 % 0x10) b ∧ IsHexDigit (code / 0x10 % 0x10) c ∧
      IsHexDigit (code % 0x10) d := by
  simp only [IsHexQuad, List.forall₂_cons_left_iff, List.forall₂_nil_left_iff] at h
  obtain ⟨a, _, ha, ⟨b, _, hb, ⟨c, _, hc, ⟨d, _, hd, rfl, rfl⟩, rfl⟩, rfl⟩, rfl⟩ := h
  exact ⟨a, b, c, d, rfl, ha, hb, hc, hd⟩

theorem length (h : IsHexQuad code digits) : digits.length = 4 := (List.Forall₂.length_eq h).symm

/-- Four digits stand for themselves in a string. -/
theorem plain (h : IsHexQuad code digits) : Plain digits := by
  obtain ⟨a, b, c, d, rfl, ha, hb, hc, hd⟩ := h.exists_digits
  simp [Plain, hexDigit_plain ha.hexDigit, hexDigit_plain hb.hexDigit, hexDigit_plain hc.hexDigit,
    hexDigit_plain hd.hexDigit]

/-- The digits of a code unit are read. -/
theorem read (h : IsHexQuad code digits) (rest : List Char) :
    hexQuad (digits ++ rest) = .ok code := by
  obtain ⟨a, b, c, d, rfl, ha, hb, hc, hd⟩ := h.exists_digits
  have hcode : ((code / 0x1000 * 16 + code / 0x100 % 0x10) * 16 + code / 0x10 % 0x10) * 16 +
      code % 0x10 = code := by omega
  simp only [List.cons_append, List.nil_append, hexQuad, hexQuad?, ha.hexDigit, hb.hexDigit,
    hc.hexDigit, hd.hexDigit, Option.bind_eq_bind, Option.bind_some, Option.pure_def, hcode]

end IsHexQuad

/-- A character is no half of a surrogate pair. -/
theorem not_surrogate (c : Char) :
    isLowSurrogate c.toNat = false ∧ isHighSurrogate c.toNat = false := by
  have hvalid : c.toNat < 0xD800 ∨ 0xDFFF < c.toNat ∧ c.toNat < 0x110000 := c.valid
  simp only [isLowSurrogate, isHighSurrogate, Bool.and_eq_false_iff, decide_eq_false_iff_not]
  omega

/-- A character that its code unit writes is read. -/
theorem unicodeEscape_unit {c : Char} {digits : List Char} (h : IsHexQuad c.toNat digits)
    (rest : List Char) : unicodeEscape (digits ++ rest) = .ok (c, 4) := by
  refine bind_eq_ok.2 ⟨_, h.read rest, ?_⟩
  simp only [(not_surrogate c).1, (not_surrogate c).2, Bool.false_eq_true, if_false,
    Char.ofNat_toNat]
  rfl

/-- A character that a surrogate pair writes is read. -/
theorem unicodeEscape_pair {c : Char} {high low : List Char} (hc : 0x10000 ≤ c.toNat)
    (hhigh : IsHexQuad (0xD800 + (c.toNat - 0x10000) / 0x400) high)
    (hlow : IsHexQuad (0xDC00 + (c.toNat - 0x10000) % 0x400) low) (rest : List Char) :
    unicodeEscape (high ++ '\\' :: 'u' :: (low ++ rest)) = .ok (c, 10) := by
  have hvalid : c.toNat < 0xD800 ∨ 0xDFFF < c.toNat ∧ c.toNat < 0x110000 := c.valid
  have hfirst : isLowSurrogate (0xD800 + (c.toNat - 0x10000) / 0x400) = false ∧
      isHighSurrogate (0xD800 + (c.toNat - 0x10000) / 0x400) = true := by
    simp only [isLowSurrogate, isHighSurrogate, Bool.and_eq_false_iff, Bool.and_eq_true,
      decide_eq_false_iff_not, decide_eq_true_eq]
    omega
  have hsecond : isLowSurrogate (0xDC00 + (c.toNat - 0x10000) % 0x400) = true := by
    simp only [isLowSurrogate, Bool.and_eq_true, decide_eq_true_eq]
    omega
  -- the two units give the bits of the character back
  have hpair : surrogatePair (0xD800 + (c.toNat - 0x10000) / 0x400)
      (0xDC00 + (c.toNat - 0x10000) % 0x400) = c := by
    have hcode : (0xD800 + (c.toNat - 0x10000) / 0x400 - 0xD800) * 0x400 +
        (0xDC00 + (c.toNat - 0x10000) % 0x400 - 0xDC00) + 0x10000 = c.toNat := by omega
    rw [surrogatePair, hcode, Char.ofNat_toNat]
  have hdrop : (high ++ '\\' :: 'u' :: (low ++ rest)).drop 4 = '\\' :: 'u' :: (low ++ rest) := by
    rw [← hhigh.length, List.drop_left]
  refine bind_eq_ok.2 ⟨_, hhigh.read _, ?_⟩
  simp only [hfirst.1, hfirst.2, hdrop, Bool.false_eq_true, if_false, if_true]
  exact bind_eq_ok.2 ⟨_, hlow.read rest, by rw [if_pos hsecond, hpair]; rfl⟩

/-- An escape is read as its character and passed over. -/
theorem readFrom_escape {text : List Char} {c : Char} {count : Nat}
    (h : escape text = .ok (c, count)) :
    readFrom 0 ('\\' :: text) =
      (readFrom 0 (text.drop count)).map fun (cs, rest) => (c :: cs, rest) := by
  have hslash : ('\\' : Char) ≠ '"' := by decide
  rw [readFrom, if_neg hslash, if_pos rfl, h, ← readFrom_skip]

/-- A short escape is one letter long. -/
theorem escape_short {letter c : Char} (h : (letter, c) ∈ shortEscapes) (rest : List Char) :
    escape (letter :: rest) = .ok (c, 1) := by
  have hletters : ∀ pair ∈ shortEscapes, pair.1 ≠ 'u' ∧ shortEscape? pair.1 = some pair.2 := by
    decide
  obtain ⟨hu, hshort⟩ := hletters _ h
  unfold escape
  split
  case h_1 heq => cases heq
  case h_2 heq => exact absurd (List.cons.inj heq).1 hu
  case h_3 heq =>
    obtain ⟨rfl, -⟩ := List.cons.inj heq
    rw [hshort]

/-- A character is read however it is written. -/
theorem WritesChar.read {c : Char} {piece : List Char} (h : WritesChar c piece)
    (text : List Char) :
    readFrom 0 (piece ++ text) = (readFrom 0 text).map fun (cs, rest) => (c :: cs, rest) := by
  cases h with
  | raw hquote hslash hcontrol =>
    rw [List.singleton_append, readFrom, if_neg hquote, if_neg hslash, if_neg (by omega)]
  | short hshort => exact readFrom_escape (escape_short hshort text)
  -- one letter and four digits are taken
  | @unit _ digits hdigits =>
    have hescape : escape ('u' :: (digits ++ text)) = .ok (c, 5) :=
      map_eq_ok.2 ⟨_, unicodeEscape_unit hdigits text, rfl⟩
    have hdrop : ('u' :: (digits ++ text)).drop 5 = text := by
      rw [List.drop_succ_cons, ← hdigits.length, List.drop_left]
    simp only [List.cons_append, readFrom_escape hescape, hdrop]
  | @pair _ high low hc hhigh hlow =>
    have hescape : escape ('u' :: (high ++ '\\' :: 'u' :: (low ++ text))) = .ok (c, 11) :=
      map_eq_ok.2 ⟨_, unicodeEscape_pair hc hhigh hlow text, rfl⟩
    -- twice as many, and the backslash between
    have hlength : ('u' :: (high ++ '\\' :: 'u' :: low)).length = 11 := by
      simp [hhigh.length, hlow.length]
    have hsplit : 'u' :: (high ++ '\\' :: 'u' :: (low ++ text)) =
        ('u' :: (high ++ '\\' :: 'u' :: low)) ++ text := by simp
    have hdrop : ('u' :: (high ++ '\\' :: 'u' :: (low ++ text))).drop 11 = text := by
      rw [hsplit, ← hlength, List.drop_left]
    simp only [List.cons_append, List.append_assoc, readFrom_escape hescape, hdrop]

/-- A character that is written can be put in front of what stands in a string. -/
theorem WritesChar.enclosed {c : Char} {piece inside : List Char} (h : WritesChar c piece)
    (hinside : Enclosed inside) : Enclosed (piece ++ inside) := by
  cases h with
  | raw hquote hslash _ => exact .plain hquote hslash hinside
  | short _ => exact .escaped hinside
  | unit hdigits => exact .escaped (hdigits.plain.enclosed hinside)
  | pair _ hhigh hlow =>
    simp only [List.cons_append, List.append_assoc]
    exact .escaped (hhigh.plain.enclosed (.escaped (hlow.plain.enclosed hinside)))

/-- What writes the characters of a string can stand between quotes. -/
theorem WritesChars.enclosed {cs inside : List Char} (h : WritesChars cs inside) :
    Enclosed inside := by
  induction h with
  | nil => exact .nil
  | cons hc _ ih => exact hc.enclosed ih

/-- A string is read however its characters are written. -/
theorem WritesChars.read {s : String} {inside : List Char} (h : WritesChars s.toList inside)
    (rest : List Char) : read (inside ++ '"' :: rest) = .ok (s, rest) := by
  have hread : ∀ {cs inside}, WritesChars cs inside →
      readFrom 0 (inside ++ '"' :: rest) = .ok (cs, rest) := by
    intro cs inside h
    induction h with
    | nil => simp [readFrom]
    | cons hc _ ih =>
      rw [List.append_assoc, hc.read, ih]
      rfl
  exact map_eq_ok.2 ⟨_, hread h, by simp⟩

end Quoted

/-! ## Integers -/

namespace Numeral

theorem toList_toString_ofNat (n : Nat) : (toString (Int.ofNat n)).toList = Nat.toDigits 10 n :=
  Nat.toList_repr

/-- A negative number has a minus in front of its digits. -/
theorem toList_toString_negSucc (n : Nat) :
    (toString (Int.negSucc n)).toList = '-' :: Nat.toDigits 10 (n + 1) := by
  have hminus : toString (Int.negSucc n) = "-" ++ (n + 1).repr := rfl
  rw [hminus, String.toList_append, Nat.toList_repr]
  rfl

/-- A number of more than one digit does not start with 0. -/
theorem toDigits_ne_zero_cons (n : Nat) (c : Char) (rest : List Char) :
    Nat.toDigits 10 n ≠ '0' :: c :: rest := by
  induction n using Nat.strongRecOn generalizing c rest with
  | ind n ih =>
    by_cases hsmall : n < 10
    · rw [Nat.toDigits_of_lt_base hsmall]
      simp
    · intro h
      rw [Nat.toDigits_of_base_le (by decide) (by omega)] at h
      -- the digits in front of the last one are those of a smaller number
      cases hfront : Nat.toDigits 10 (n / 10) with
      | nil => exact Nat.toDigits_ne_nil hfront
      | cons d front =>
        rw [hfront, List.cons_append] at h
        obtain ⟨rfl, hrest⟩ := List.cons.inj h
        cases front with
        | nil =>
          -- a single 0 would be the number 0
          have hvalue : Nat.ofDigitChars 10 (Nat.toDigits 10 (n / 10)) 0 = n / 10 :=
            Nat.ofDigitChars_ten_toDigits
          rw [hfront] at hvalue
          simp [Nat.ofDigitChars] at hvalue
          omega
        | cons e front => exact ih (n / 10) (by omega) e front hfront

end Numeral

namespace NumberToken

/-- The token that an integer is written by. -/
def ofInt (value : Int) : NumberToken where
  negative := decide (value < 0)
  whole := Nat.toDigits 10 value.natAbs
  fraction := none
  exponent := none
  isWhole := ⟨Nat.toDigits_ne_nil, fun _ hc =>
    Nat.isDigit_of_mem_toDigits (by decide) (by decide) hc⟩
  noLeadingZero := Numeral.toDigits_ne_zero_cons value.natAbs
  isFraction := nofun

variable (value : Int)

/-- The token of an integer has its decimal text. -/
theorem text_ofInt : (ofInt value).text = (toString value).toList := by
  rw [text_of_plain _ rfl rfl, minus]
  cases value with
  | ofNat n =>
    rw [Numeral.toList_toString_ofNat]
    simp [ofInt]
  | negSucc n =>
    rw [Numeral.toList_toString_negSucc]
    simp [ofInt, Int.natAbs_negSucc]

/-- It writes the integer. -/
theorem integer_ofInt : (ofInt value).integer = value := by
  have hdigits : Nat.ofDigitChars 10 (ofInt value).whole 0 = value.natAbs :=
    Nat.ofDigitChars_ten_toDigits
  rw [integer, hdigits]
  by_cases hnegative : value < 0
  · simp only [ofInt, hnegative, decide_true, if_true]
    omega
  · simp only [ofInt, hnegative, decide_false, Bool.false_eq_true, if_false]
    omega

/-- No integer is written as `-0`. -/
theorem text_ofInt_ne_minusZero : (ofInt value).text ≠ "-0".toList := by
  rw [Ne, text_eq_minusZero _ rfl rfl]
  rintro ⟨hnegative, hzero⟩
  have hdigits : Nat.ofDigitChars 10 (ofInt value).whole 0 = value.natAbs :=
    Nat.ofDigitChars_ten_toDigits
  have hsign : value < 0 := of_decide_eq_true hnegative
  omega

/-- The integers of 32 bits are written as such. -/
theorem writesInt32_ofInt :
    (ofInt value).WritesInt32 ↔ -2147483648 ≤ value ∧ value ≤ 2147483647 := by
  constructor
  · intro h
    rw [← integer_ofInt value]
    exact ⟨h.low, h.high⟩
  · rintro ⟨hlow, hhigh⟩
    rw [← integer_ofInt value] at hlow hhigh
    exact ⟨rfl, rfl, text_ofInt_ne_minusZero value, hlow, hhigh⟩

end NumberToken

/-- An integer of 64 bits, signed or not, that was written is read. -/
theorem Number.read_toString {value : Int} (hlow : Int64.minValue.toInt ≤ value)
    (hhigh : value < UInt64.size) {rest : List Char} (hrest : AtBoundary rest) :
    read ((toString value).toList ++ rest) = .ok (.integer value, rest) := by
  have hinteger : (NumberToken.ofInt value).numeral.integer? = some value :=
    (NumberToken.integer?_eq_some _).2 ⟨rfl, rfl, NumberToken.text_ofInt_ne_minusZero value,
      NumberToken.integer_ofInt value, hlow, hhigh⟩
  rw [← NumberToken.text_ofInt]
  refine bind_eq_ok.2 ⟨_, (NumberToken.ofInt value).read hrest, ?_⟩
  exact bind_eq_ok.2 ⟨_, Numeral.value_eq_integer.2 hinteger, rfl⟩

/-- The digits of an integer and its minus are one word. -/
theorem isWord_toString (value : Int) : IsWord (toString value).toList :=
  NumberToken.text_ofInt value ▸ (NumberToken.ofInt value).isWord

end XrManifest.Json
