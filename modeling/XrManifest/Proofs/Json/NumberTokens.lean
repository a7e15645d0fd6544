import XrManifest.Proofs.Json.Tokens
import XrManifest.Proofs.Outcomes

/-!
# Number tokens

The numbers of JSON by their syntax, apart from how they are read: an optional minus, digits
without a leading zero, and optionally a fraction and an exponent. Every such token is read with
the parts that it is written with (`NumberToken.read`), and nothing else is read as a number
(`exists_numberToken`). Its value is an integer of 32 bits exactly where it is written as one
(`NumberToken.value_eq_int32`).
-/

namespace XrManifest.Json

/-! ## Digits -/

namespace Numeral

/-- Digits at the front of a text are taken up to the first other character. -/
theorem readDigits_eq_ok {text digits rest : List Char} :
    readDigits text = .ok (digits, rest) ↔
      text = digits ++ rest ∧ digits ≠ [] ∧ (∀ c ∈ digits, c.isDigit = true) ∧
        Stops Char.isDigit rest := by
  constructor
  · intro h
    -- the first digit is read on its own, as there has to be one
    cases text with
    | nil => cases h
    | cons c text =>
      by_cases hc : c.isDigit = true
      · simp only [readDigits, hc, if_true] at h
        rcases Prod.mk.inj (Except.ok.inj h) with ⟨rfl, rfl⟩
        refine ⟨by simp, by simp, ?_, ?_⟩
        · intro d hd
          rcases List.mem_cons.1 hd with rfl | hd
          · exact hc
          · exact List.all_eq_true.1 List.all_takeWhile d hd
        · intro d hd
          have := List.head?_dropWhile_not Char.isDigit text
          rw [Option.mem_def.1 hd] at this
          simpa using this
      · simp [readDigits, hc] at h
  · rintro ⟨rfl, hne, hdigits, hstops⟩
    cases digits with
    | nil => exact absurd rfl hne
    | cons c digits =>
      have hspan := span_of_stops (fun d hd => hdigits d (List.mem_cons_of_mem c hd)) hstops
      simp [readDigits, hdigits c (by simp), hspan.1, hspan.2]

/-- Digits do not start with a sign. -/
theorem digits_ne_cons {digits other x : List Char} {c : Char} (hne : digits ≠ [])
    (hdigits : ∀ d ∈ digits, d.isDigit = true) (hc : c.isDigit = false) :
    digits ++ other ≠ c :: x := by
  intro h
  cases digits with
  | nil => exact hne rfl
  | cons d digits =>
    have hd : d.isDigit = true := hdigits d (by simp)
    rw [(List.cons.inj h).1, hc] at hd
    exact absurd hd (by decide)

/-- The characters that a number can go on with behind its digits before the point. -/
def digitOrPoint (c : Char) : Bool := c.isDigit || c = '.'

end Numeral

/-! ## Syntax -/

/-- At least one digit and nothing else. -/
structure IsDigits (digits : List Char) : Prop where
  ne_nil : digits ≠ []
  all : ∀ c ∈ digits, c.isDigit = true

/-- An exponent as it is written: the letter, the sign where there is one, and digits. -/
structure ExponentToken where
  letter : Char
  sign : Option Char
  digits : List Char
  isLetter : letter = 'e' ∨ letter = 'E'
  isSign : ∀ c ∈ sign, c = '+' ∨ c = '-'
  isDigits : IsDigits digits

def ExponentToken.text (e : ExponentToken) : List Char := e.letter :: (e.sign.toList ++ e.digits)

/-- A number as it is written. -/
structure NumberToken where
  negative : Bool
  whole : List Char
  fraction : Option (List Char)
  exponent : Option ExponentToken
  isWhole : IsDigits whole
  noLeadingZero : ∀ c rest, whole ≠ '0' :: c :: rest
  isFraction : ∀ digits ∈ fraction, IsDigits digits

namespace NumberToken

/-- The minus of a number, where there is one. -/
def minus (t : NumberToken) : List Char := if t.negative then ['-'] else []

def fractionText (t : NumberToken) : List Char :=
  t.fraction.elim [] fun digits => '.' :: digits

/-- The exponent of a number, where there is one. -/
def exponentText (t : NumberToken) : List Char := t.exponent.elim [] ExponentToken.text

def text (t : NumberToken) : List Char :=
  t.minus ++ (t.whole ++ (t.fractionText ++ t.exponentText))

/-- The parts of a number that count. -/
def numeral (t : NumberToken) : Numeral where
  negative := t.negative
  whole := t.whole
  fraction := t.fraction
  exponent := t.exponent.map fun e => (decide (e.sign = some '-'), e.digits)

/-- The integer in front of the point. -/
def integer (t : NumberToken) : Int :=
  if t.negative then -Nat.ofDigitChars 10 t.whole 0 else Nat.ofDigitChars 10 t.whole 0

/-- The number is an integer from `-2 ^ 31` to `2 ^ 31 - 1`, and is written without fraction and
exponent, and not as `-0`. -/
structure WritesInt32 (t : NumberToken) : Prop where
  fraction : t.fraction = none
  exponent : t.exponent = none
  not_minusZero : t.text ≠ "-0".toList
  low : -2147483648 ≤ t.integer
  high : t.integer ≤ 2147483647

end NumberToken

/-! ## Words -/

namespace NumberToken

variable (t : NumberToken)

/-- A number is written with characters of words only. -/
theorem isWordChar_of_mem {c : Char} (hc : c ∈ t.text) : isWordChar c = true := by
  have hdigits : ∀ {digits : List Char}, IsDigits digits → c ∈ digits → isWordChar c = true :=
    fun hdigits hc => isWordChar_of_isDigit (hdigits.all c hc)
  simp only [text, List.mem_append] at hc
  -- part by part: minus, whole number, fraction and exponent
  rcases hc with hc | hc | hc | hc
  · unfold minus at hc
    split at hc
    · obtain rfl := List.mem_singleton.1 hc
      decide
    · cases hc
  · exact hdigits t.isWhole hc
  · unfold fractionText at hc
    cases hfraction : t.fraction with
    | none =>
      rw [hfraction] at hc
      cases hc
    | some digits =>
      rw [hfraction] at hc
      rcases List.mem_cons.1 hc with rfl | hc
      · decide
      · exact hdigits (t.isFraction digits hfraction) hc
  · unfold exponentText at hc
    cases hexponent : t.exponent with
    | none =>
      rw [hexponent] at hc
      cases hc
    | some e =>
      rw [hexponent] at hc
      rcases List.mem_cons.1 hc with rfl | hc
      · rcases e.isLetter with h | h <;> rw [h] <;> decide
      · rcases List.mem_append.1 hc with hc | hc
        · rcases e.isSign c (Option.mem_toList.1 hc) with rfl | rfl <;> decide
        · exact hdigits e.isDigits hc

/-- A number starts with a minus or a digit. -/
theorem head?_text {c : Char} (hc : c ∈ t.text.head?) : c = '-' ∨ c.isDigit = true := by
  unfold text minus at hc
  split at hc
  · exact .inl (Option.some.inj hc).symm
  · obtain ⟨d, rest, hwhole⟩ := List.exists_cons_of_ne_nil t.isWhole.ne_nil
    rw [hwhole] at hc
    obtain rfl : d = c := by simpa using hc
    exact .inr (t.isWhole.all d (by simp [hwhole]))

theorem isWord : IsWord t.text :=
  ⟨by simp [text, t.isWhole.ne_nil], fun _ hc => t.isWordChar_of_mem hc⟩

/-! ## Reading -/

/-- An exponent is read back. -/
theorem readExponent_text {rest : List Char} (hrest : AtBoundary rest) :
    Numeral.readExponent (t.exponentText ++ rest) = .ok (t.numeral.exponent, rest) := by
  unfold exponentText numeral
  cases t.exponent with
  | none =>
    cases rest with
    | nil => rfl
    | cons c rest =>
      have hc : isWordChar c = false := hrest c rfl
      have hletter : ¬ (c = 'e' ∨ c = 'E') := by
        rintro (rfl | rfl) <;> exact absurd hc (by decide)
      simp [Numeral.readExponent, hletter]
  | some e =>
    have hstops : Stops Char.isDigit rest := hrest.mono fun c hc => isWordChar_of_isDigit hc
    have hdigits : Numeral.readDigits (e.digits ++ rest) = .ok (e.digits, rest) :=
      Numeral.readDigits_eq_ok.2 ⟨rfl, e.isDigits.ne_nil, e.isDigits.all, hstops⟩
    have hsign : Numeral.exponentSign (e.sign.toList ++ (e.digits ++ rest)) =
        (decide (e.sign = some '-'), e.digits ++ rest) := by
      -- without a sign, the digits follow the letter
      cases hsign : e.sign with
      | none =>
        rw [Option.toList_none, List.nil_append]
        unfold Numeral.exponentSign
        split
        · exact absurd ‹_› (Numeral.digits_ne_cons e.isDigits.ne_nil e.isDigits.all (by decide))
        · exact absurd ‹_› (Numeral.digits_ne_cons e.isDigits.ne_nil e.isDigits.all (by decide))
        · rfl
      | some c =>
        rcases e.isSign c hsign with rfl | rfl <;> rfl
    have htext : (some e).elim [] ExponentToken.text ++ rest =
        e.letter :: (e.sign.toList ++ (e.digits ++ rest)) := by simp [ExponentToken.text]
    rw [htext, Numeral.readExponent]
    simp only [e.isLetter, if_true, hsign, hdigits]
    rfl

/-- So is what stands behind the point. -/
theorem readFraction_text {rest : List Char} (hstops : Stops Numeral.digitOrPoint rest) :
    Numeral.readFraction (t.fractionText ++ rest) = .ok (t.fraction, rest) := by
  unfold fractionText
  cases hfraction : t.fraction with
  | none =>
    rw [Option.elim_none, List.nil_append]
    unfold Numeral.readFraction
    split
    · exact absurd (hstops '.' rfl) (by decide)
    · rfl
  | some digits =>
    have hdigits := t.isFraction digits hfraction
    have hdigitStops : Stops Char.isDigit rest :=
      hstops.mono fun c hc => by simp [Numeral.digitOrPoint, hc]
    exact map_eq_ok.2 ⟨_, Numeral.readDigits_eq_ok.2
      ⟨rfl, hdigits.ne_nil, hdigits.all, hdigitStops⟩, rfl⟩

/-- So are the digits in front of it. -/
theorem readWhole_text {rest : List Char} (hstops : Stops Char.isDigit rest) :
    Numeral.readWhole (t.whole ++ rest) = .ok (t.whole, rest) := by
  refine bind_eq_ok.2 ⟨_, Numeral.readDigits_eq_ok.2
    ⟨rfl, t.isWhole.ne_nil, t.isWhole.all, hstops⟩, ?_⟩
  dsimp only
  split
  · exact absurd ‹_› (t.noLeadingZero _ _)
  · rfl

theorem sign_text (rest : List Char) :
    Numeral.sign (t.minus ++ (t.whole ++ rest)) = (t.negative, t.whole ++ rest) := by
  unfold minus
  cases t.negative with
  | true => rfl
  | false =>
    unfold Numeral.sign
    split
    · exact absurd ‹_› (Numeral.digits_ne_cons t.isWhole.ne_nil t.isWhole.all (by decide))
    · rfl

/-- A number token is read with its parts. -/
theorem read {rest : List Char} (hrest : AtBoundary rest) :
    Numeral.read (t.text ++ rest) = .ok (t.numeral, rest) := by
  -- each part ends where the next one starts
  have hexponent : Stops Numeral.digitOrPoint (t.exponentText ++ rest) := by
    refine Stops.append ?_ (hrest.mono fun c hc => ?_)
    · unfold exponentText
      cases t.exponent with
      | none => simp [Stops]
      | some e =>
        rcases e.isLetter with h | h <;> simp [Stops, ExponentToken.text, h, Numeral.digitOrPoint]
    · simp only [Numeral.digitOrPoint, Bool.or_eq_true, decide_eq_true_eq] at hc
      rcases hc with hc | rfl
      · exact isWordChar_of_isDigit hc
      · decide
  have hfraction : Stops Char.isDigit (t.fractionText ++ (t.exponentText ++ rest)) := by
    refine Stops.append ?_ (hexponent.mono fun c hc => by simp [Numeral.digitOrPoint, hc])
    unfold fractionText
    cases t.fraction <;> simp [Stops]
  simp only [text, List.append_assoc, Numeral.read, sign_text]
  refine bind_eq_ok.2 ⟨_, t.readWhole_text hfraction, ?_⟩
  refine bind_eq_ok.2 ⟨_, t.readFraction_text hexponent, ?_⟩
  exact bind_eq_ok.2 ⟨_, t.readExponent_text hrest, rfl⟩

end NumberToken

/-! ## Nothing else is read -/

namespace Numeral

/-- What is read as digits is at least one digit. -/
theorem isDigits_of_readDigits {text digits rest : List Char}
    (h : readDigits text = .ok (digits, rest)) : text = digits ++ rest ∧ IsDigits digits := by
  obtain ⟨rfl, hne, hall, -⟩ := readDigits_eq_ok.1 h
  exact ⟨rfl, hne, hall⟩

/-- What is read in front of the point has no leading zero. -/
theorem whole_of_readWhole {text digits rest : List Char}
    (h : readWhole text = .ok (digits, rest)) :
    text = digits ++ rest ∧ IsDigits digits ∧ ∀ c more, digits ≠ '0' :: c :: more := by
  obtain ⟨⟨found, rest'⟩, hdigits, h⟩ := bind_eq_ok.1 h
  dsimp only at h
  split at h
  · cases h
  · rename_i hzero
    obtain ⟨rfl, rfl⟩ := Prod.mk.inj (Except.ok.inj h)
    obtain ⟨htext, hall⟩ := isDigits_of_readDigits hdigits
    exact ⟨htext, hall, hzero⟩

/-- What is read behind the point stands behind one. -/
theorem fraction_of_readFraction {text rest : List Char} {fraction : Option (List Char)}
    (h : readFraction text = .ok (fraction, rest)) :
    text = fraction.elim [] (fun digits => '.' :: digits) ++ rest ∧
      ∀ digits ∈ fraction, IsDigits digits := by
  unfold readFraction at h
  split at h
  · obtain ⟨⟨digits, rest'⟩, hdigits, hpair⟩ := map_eq_ok.1 h
    obtain ⟨rfl, rfl⟩ := Prod.mk.inj hpair
    obtain ⟨rfl, hall⟩ := isDigits_of_readDigits hdigits
    refine ⟨rfl, fun other hother => ?_⟩
    rwa [← Option.some.inj hother]
  · obtain ⟨rfl, rfl⟩ := Prod.mk.inj (Except.ok.inj h)
    exact ⟨rfl, nofun⟩

/-- The sign of an exponent is a plus, a minus or nothing. -/
theorem exponentSign_cases {text rest : List Char} {negative : Bool}
    (h : exponentSign text = (negative, rest)) :
    ∃ sign : Option Char, (∀ c ∈ sign, c = '+' ∨ c = '-') ∧ text = sign.toList ++ rest ∧
      negative = decide (sign = some '-') := by
  unfold exponentSign at h
  split at h <;> obtain ⟨rfl, rfl⟩ := Prod.mk.inj h
  · exact ⟨some '-', fun c hc => .inr (Option.some.inj hc).symm, rfl, rfl⟩
  · exact ⟨some '+', fun c hc => .inl (Option.some.inj hc).symm, rfl, rfl⟩
  · exact ⟨none, nofun, rfl, rfl⟩

/-- What is read as an exponent is written as one. -/
theorem exponent_of_readExponent {text rest : List Char} {exponent : Option (Bool × List Char)}
    (h : readExponent text = .ok (exponent, rest)) :
    ∃ e : Option ExponentToken,
      exponent = e.map (fun e => (decide (e.sign = some '-'), e.digits)) ∧
      text = e.elim [] ExponentToken.text ++ rest := by
  unfold readExponent at h
  split at h
  case h_2 =>
    obtain ⟨rfl, rfl⟩ := Prod.mk.inj (Except.ok.inj h)
    exact ⟨none, rfl, rfl⟩
  case h_1 letter tail =>
    by_cases hletter : letter = 'e' ∨ letter = 'E'
    · rcases htail : exponentSign tail with ⟨negative, behind⟩
      obtain ⟨sign, hsign, rfl, rfl⟩ := exponentSign_cases htail
      rw [if_pos hletter, htail] at h
      obtain ⟨⟨digits, rest'⟩, hread, hpair⟩ := map_eq_ok.1 h
      obtain ⟨rfl, rfl⟩ := Prod.mk.inj hpair
      obtain ⟨rfl, hdigits⟩ := isDigits_of_readDigits hread
      exact ⟨some ⟨letter, sign, digits, hletter, hsign, hdigits⟩, rfl,
        by simp [ExponentToken.text]⟩
    · rw [if_neg hletter] at h
      obtain ⟨rfl, rfl⟩ := Prod.mk.inj (Except.ok.inj h)
      exact ⟨none, rfl, rfl⟩

theorem sign_cases {text rest : List Char} {negative : Bool} (h : sign text = (negative, rest)) :
    text = (if negative then ['-'] else []) ++ rest := by
  unfold sign at h
  split at h <;> obtain ⟨rfl, rfl⟩ := Prod.mk.inj h <;> rfl

end Numeral

/-- What is read as a number is a number token. -/
theorem exists_numberToken {text rest : List Char} {n : Numeral}
    (h : Numeral.read text = .ok (n, rest)) :
    ∃ t : NumberToken, t.numeral = n ∧ text = t.text ++ rest := by
  rcases hsign : Numeral.sign text with ⟨negative, behind⟩
  obtain rfl := Numeral.sign_cases hsign
  simp only [Numeral.read, hsign] at h
  -- each reader takes its part, and the parts together are the token
  obtain ⟨⟨whole, rest₁⟩, hwhole, h⟩ := bind_eq_ok.1 h
  obtain ⟨⟨fraction, rest₂⟩, hfraction, h⟩ := bind_eq_ok.1 h
  obtain ⟨⟨exponent, rest₃⟩, hexponent, h⟩ := bind_eq_ok.1 h
  obtain ⟨rfl, rfl⟩ := Prod.mk.inj (Except.ok.inj h)
  obtain ⟨rfl, hall, hzero⟩ := Numeral.whole_of_readWhole hwhole
  obtain ⟨rfl, hdigits⟩ := Numeral.fraction_of_readFraction hfraction
  obtain ⟨e, rfl, rfl⟩ := Numeral.exponent_of_readExponent hexponent
  exact ⟨⟨negative, whole, fraction, e, hall, hzero, hdigits⟩, rfl,
    by simp [NumberToken.text, NumberToken.minus, NumberToken.fractionText,
      NumberToken.exponentText]⟩

/-! ## Values -/

namespace Numeral

/-- A number in range is the same whatever stands behind it. -/
theorem scaled_eq_ok {negative : Bool} {significand : Nat} {exponent : Int} {rest : List Char}
    {n : Number} (h : scaled negative significand exponent rest = .ok n) (other : List Char) :
    scaled negative significand exponent other = .ok n := by
  unfold scaled at h ⊢
  split at h
  case isTrue => cases h
  case isFalse hrange =>
    rw [if_neg hrange]
    exact h

/-- The value of a number does not depend on the text behind it. -/
theorem value_eq_ok {numeral : Numeral} {rest : List Char} {n : Number}
    (h : numeral.value rest = .ok n) (other : List Char) : numeral.value other = .ok n := by
  unfold value at h ⊢
  split at h
  case h_1 => exact h
  case h_2 =>
    -- the rest only stands in errors, at whichever branch one is raised
    dsimp only at h ⊢
    split at h
    case h_1 => exact scaled_eq_ok h other
    case h_2 =>
      split at h
      case h_1 => exact scaled_eq_ok h other
      case h_2 =>
        split at h
        case isTrue => cases h
        case isFalse hzero =>
          rw [if_neg hzero]
          exact h

/-- A number is an integer exactly where it fits 64 bits as one. -/
theorem value_eq_integer {n : Numeral} {rest : List Char} {i : Int} :
    n.value rest = .ok (.integer i) ↔ n.integer? = some i := by
  -- a number with a fraction or an exponent is no integer
  have hscaled : ∀ {negative significand exponent},
      scaled negative significand exponent rest ≠ .ok (.integer i) := by
    intro negative significand exponent h
    unfold scaled at h
    split at h <;> cases h
  constructor
  · intro h
    unfold value at h
    split at h
    case h_1 hinteger => rw [hinteger, Number.integer.inj (Except.ok.inj h)]
    case h_2 =>
      dsimp only at h
      split at h
      case h_1 => exact absurd h hscaled
      case h_2 =>
        split at h
        case h_1 => exact absurd h hscaled
        case h_2 => split at h <;> cases h
  · intro h
    rw [value, h]

end Numeral

/-- A number is read from one word. -/
theorem Number.read_token {text rest : List Char} {n : Number} (h : read text = .ok (n, rest)) :
    ∃ letters, IsWord letters ∧ text = letters ++ rest ∧
      ∀ other, AtBoundary other → read (letters ++ other) = .ok (n, other) := by
  obtain ⟨⟨numeral, rest'⟩, hread, h⟩ := bind_eq_ok.1 h
  obtain ⟨value, hvalue, h⟩ := bind_eq_ok.1 h
  obtain ⟨rfl, rfl⟩ := Prod.mk.inj (Except.ok.inj h)
  obtain ⟨t, rfl, rfl⟩ := exists_numberToken hread
  refine ⟨t.text, t.isWord, rfl, fun other hother => ?_⟩
  exact bind_eq_ok.2 ⟨_, t.read hother, bind_eq_ok.2 ⟨_, Numeral.value_eq_ok hvalue other, rfl⟩⟩

namespace NumberToken

variable (t : NumberToken)

/-- Only 0 has the digits of 0. -/
theorem whole_of_ofDigitChars (h : Nat.ofDigitChars 10 t.whole 0 = 0) : t.whole = ['0'] := by
  obtain ⟨c, rest, hwhole⟩ := List.exists_cons_of_ne_nil t.isWhole.ne_nil
  have hdigit : c.isDigit = true := t.isWhole.all c (by simp [hwhole])
  have hlow : '0'.toNat ≤ c.toNat := (Char.isDigit_iff_toNat.1 hdigit).1
  rw [hwhole, Nat.ofDigitChars_cons, Nat.ofDigitChars_eq_ofDigitChars_zero] at h
  have hzero : c = '0' := by
    rw [Nat.add_eq_zero_iff, Nat.mul_eq_zero] at h
    have hpos : 0 < 10 ^ rest.length := Nat.pow_pos (by decide)
    exact Char.toNat_inj.1 (by omega)
  subst hzero
  cases rest with
  | nil => exact hwhole
  | cons d rest => exact absurd hwhole (t.noLeadingZero d rest)

/-- Without a fraction and an exponent there are only the sign and the digits. -/
theorem text_of_plain (hfraction : t.fraction = none) (hexponent : t.exponent = none) :
    t.text = t.minus ++ t.whole := by
  simp [text, fractionText, exponentText, hfraction, hexponent]

/-- The number `-0` is the one that has a minus and the digits of 0. -/
theorem text_eq_minusZero (hfraction : t.fraction = none) (hexponent : t.exponent = none) :
    t.text = "-0".toList ↔ t.negative = true ∧ Nat.ofDigitChars 10 t.whole 0 = 0 := by
  rw [t.text_of_plain hfraction hexponent, minus]
  -- digits alone have no minus
  cases hnegative : t.negative with
  | false =>
    have hwhole : t.whole ≠ "-0".toList := by
      intro h
      have hminus : ('-' : Char).isDigit = true := t.isWhole.all '-' (by simp [h])
      exact absurd hminus (by decide)
    simpa using hwhole
  | true =>
    have hdigits : t.whole = ['0'] ↔ Nat.ofDigitChars 10 t.whole 0 = 0 :=
      ⟨fun h => by rw [h]; rfl, t.whole_of_ofDigitChars⟩
    simpa using hdigits

/-- The numbers that are read as integers. -/
theorem integer?_eq_some {i : Int} :
    t.numeral.integer? = some i ↔ t.fraction = none ∧ t.exponent = none ∧
      t.text ≠ "-0".toList ∧ t.integer = i ∧ Int64.minValue.toInt ≤ i ∧ i < UInt64.size := by
  -- a fraction or an exponent makes it a float, even where its value is whole
  by_cases hplain : t.fraction = none ∧ t.exponent = none
  · obtain ⟨hfraction, hexponent⟩ := hplain
    rw [Ne, t.text_eq_minusZero hfraction hexponent]
    simp only [Numeral.integer?, numeral, integer, hfraction, hexponent]
    have hsize : UInt64.size = 18446744073709551616 := rfl
    have hmin : Int64.minValue.toInt = -9223372036854775808 := rfl
    cases t.negative <;> simp [hsize, hmin] <;> omega
  · have hnone : t.numeral.integer? = none := by
      rw [Numeral.integer?, if_pos]
      simp only [numeral, Option.isSome_map]
      simpa [Option.ne_none_iff_isSome, or_iff_not_imp_left] using hplain
    rw [hnone]
    constructor
    · nofun
    · rintro ⟨hfraction, hexponent, -⟩
      exact absurd ⟨hfraction, hexponent⟩ hplain

/-- A number is read as an integer of 32 bits exactly where it is written as one. -/
theorem value_eq_int32 {rest : List Char} {n : Int32} :
    t.numeral.value rest = .ok (.integer n.toInt) ↔ t.WritesInt32 ∧ t.integer = n.toInt := by
  have hlow : -2147483648 ≤ n.toInt := n.minValue_le_toInt
  have hhigh : n.toInt ≤ 2147483647 := n.toInt_le
  have hmin : Int64.minValue.toInt ≤ -2147483648 := by decide
  have hmax : 2147483647 < (UInt64.size : Int) := by decide
  rw [Numeral.value_eq_integer, integer?_eq_some]
  constructor
  · rintro ⟨hfraction, hexponent, hzero, hinteger, -, -⟩
    exact ⟨⟨hfraction, hexponent, hzero, hinteger ▸ hlow, hinteger ▸ hhigh⟩, hinteger⟩
  · rintro ⟨⟨hfraction, hexponent, hzero, -, -⟩, hinteger⟩
    exact ⟨hfraction, hexponent, hzero, hinteger, by omega, by omega⟩

/-- The integer of 32 bits that a number writes. -/
theorem WritesInt32.exists_int32 {t : NumberToken} (h : t.WritesInt32) :
    ∃ n : Int32, n.toInt = t.integer :=
  ⟨Int32.ofIntLE t.integer h.low h.high, Int32.toInt_ofIntLE⟩

end NumberToken

end XrManifest.Json
