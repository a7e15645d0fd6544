import Mathlib.Data.List.Forall2
import Mathlib.Data.List.Induction
import XrManifest.Text.Position

/-!
# Bytes of texts

The UTF-8 form of a text as a list of bytes. A byte of ASCII stands for the character it
is and is part of no other (`toUInt8_mem_encode`). A place in a text depends on the bytes in
front of it only, and of these only on where the line breaks are (`positionAt_congr`).
-/

namespace XrManifest.Text

/-- The UTF-8 form of a text. -/
def bytes (text : List Char) : List UInt8 := text.flatMap String.utf8EncodeChar

@[simp] theorem bytes_nil : bytes [] = [] := rfl

theorem bytes_cons (c : Char) (text : List Char) :
    bytes (c :: text) = String.utf8EncodeChar c ++ bytes text := rfl

theorem bytes_append (text more : List Char) : bytes (text ++ more) = bytes text ++ bytes more :=
  List.flatMap_append

/-- The bytes of a text are those of its characters, one after the other. -/
theorem toUTF8_ofList (text : List Char) :
    (String.ofList text).toUTF8 = (bytes text).toByteArray := String.toByteArray_ofList

def utf8 (text : String) : List UInt8 := text.toUTF8.data.toList

theorem utf8_eq (text : String) : utf8 text = bytes text.toList := by
  have h := toUTF8_ofList text.toList
  rw [String.ofList_toList] at h
  rw [utf8, h, List.toList_data_toByteArray]

/-- Reading the bytes of a text gives the text back. -/
theorem fromUTF8?_toUTF8 (text : String) : String.fromUTF8? text.toUTF8 = some text := by
  have hvalid : text.toUTF8.IsValidUTF8 := text.isValidUTF8
  unfold String.fromUTF8?
  rw [dif_pos hvalid]
  rfl

/-! ## ASCII -/

def IsAscii (c : Char) : Prop := c.toNat ≤ 127

instance : DecidablePred IsAscii := fun c => inferInstanceAs (Decidable (c.toNat ≤ 127))

/-- A character of ASCII is one byte, and all bytes of another are outside of ASCII. -/
theorem encode_cases (c : Char) :
    IsAscii c ∧ String.utf8EncodeChar c = [c.toUInt8] ∨
      ¬ IsAscii c ∧ ∀ b ∈ String.utf8EncodeChar c, 127 < b.toNat := by
  unfold IsAscii String.utf8EncodeChar
  by_cases hascii : c.toNat ≤ 127
  · refine .inl ⟨hascii, ?_⟩
    have hval : c.val.toNat ≤ 127 := hascii
    simp only [hval, if_true]
    rfl
  · have hval : ¬ c.val.toNat ≤ 127 := hascii
    refine .inr ⟨hascii, fun b hb => ?_⟩
    simp only [hval, if_false] at hb
    -- of two, three or four bytes each is above 127
    split at hb
    case isTrue =>
      simp only [List.mem_cons, List.not_mem_nil, or_false] at hb
      rcases hb with rfl | rfl <;> simp only [UInt8.toNat_ofNat'] <;> omega
    case isFalse =>
      split at hb <;> simp only [List.mem_cons, List.not_mem_nil, or_false] at hb
      · rcases hb with rfl | rfl | rfl <;> simp only [UInt8.toNat_ofNat'] <;> omega
      · rcases hb with rfl | rfl | rfl | rfl <;> simp only [UInt8.toNat_ofNat'] <;> omega

/-- A character of ASCII is one byte, with the code of the character. -/
theorem toNat_toUInt8 {c : Char} (hc : IsAscii c) : c.toUInt8.toNat = c.toNat := by
  have hval : c.val.toNat ≤ 127 := hc
  have hbyte : c.toUInt8.toNat = c.val.toNat % 256 := rfl
  have hnat : c.toNat = c.val.toNat := rfl
  omega

/-- Different characters of ASCII have different bytes. -/
theorem toUInt8_inj {c d : Char} (hc : IsAscii c) (hd : IsAscii d) :
    c.toUInt8 = d.toUInt8 ↔ c = d := by
  constructor
  · intro h
    have hnat : c.toNat = d.toNat := by rw [← toNat_toUInt8 hc, ← toNat_toUInt8 hd, h]
    exact Char.toNat_inj.1 hnat
  · rintro rfl
    rfl

theorem ofUInt8_toUInt8 {c : Char} (hc : IsAscii c) : Char.ofUInt8 c.toUInt8 = c := by
  have hnat : (Char.ofUInt8 c.toUInt8).toNat = c.toUInt8.toNat := UInt8.toNat_toUInt32 _
  rw [toNat_toUInt8 hc] at hnat
  exact Char.toNat_inj.1 hnat

/-- No byte beyond ASCII is one of a character of ASCII. -/
theorem ne_toUInt8 {b : UInt8} {d : Char} (hb : 127 < b.toNat) (hd : IsAscii d) :
    b ≠ d.toUInt8 := by
  rintro rfl
  rw [toNat_toUInt8 hd] at hb
  have hle : d.toNat ≤ 127 := hd
  omega

/-- Only the first byte of a character can be in ASCII. -/
theorem exists_encode (c : Char) :
    ∃ b more, String.utf8EncodeChar c = b :: more ∧ ∀ x ∈ more, 127 < x.toNat := by
  rcases encode_cases c with ⟨-, hencode⟩ | ⟨-, hencode⟩
  · exact ⟨_, [], hencode, by simp⟩
  · obtain ⟨b, more, hmore⟩ := List.exists_cons_of_ne_nil (String.utf8EncodeChar_ne_nil (c := c))
    rw [hmore] at hencode
    exact ⟨b, more, hmore, fun x hx => hencode x (List.mem_cons_of_mem b hx)⟩

theorem bytes_ascii {c : Char} (hc : IsAscii c) (text : List Char) :
    bytes (c :: text) = c.toUInt8 :: bytes text := by
  rcases encode_cases c with ⟨-, hencode⟩ | ⟨hnot, -⟩
  · rw [bytes_cons, hencode]
    rfl
  · exact absurd hc hnot

/-- A byte of ASCII is part of the character that it is, and of no other. -/
theorem toUInt8_mem_encode {c d : Char} (hd : IsAscii d) :
    d.toUInt8 ∈ String.utf8EncodeChar c ↔ c = d := by
  rcases encode_cases c with ⟨hc, hencode⟩ | ⟨hc, hencode⟩
  · rw [hencode, List.mem_singleton, toUInt8_inj hd hc, eq_comm]
  · constructor
    · intro hmem
      exact absurd rfl (ne_toUInt8 (hencode _ hmem) hd)
    · rintro rfl
      exact absurd hd hc

/-- The byte of a character of ASCII occurs only where the character does. -/
theorem toUInt8_mem_bytes {d : Char} (hd : IsAscii d) (text : List Char) :
    d.toUInt8 ∈ bytes text ↔ d ∈ text := by
  simp only [bytes, List.mem_flatMap, toUInt8_mem_encode hd, exists_eq_right]

/-- So does the first byte of a text. -/
theorem head?_bytes {d : Char} (hd : IsAscii d) (text : List Char) :
    (bytes text).head? = some d.toUInt8 ↔ text.head? = some d := by
  cases text with
  | nil => simp
  | cons c text =>
    rw [bytes_cons]
    rcases encode_cases c with ⟨hc, hencode⟩ | ⟨hc, hencode⟩
    · rw [hencode, List.singleton_append, List.head?_cons, List.head?_cons, Option.some.injEq,
        Option.some.injEq, toUInt8_inj hc hd]
    · constructor
      · intro h
        -- only the encoding of an ASCII character has its byte
        have hmem : d.toUInt8 ∈ String.utf8EncodeChar c := by
          rw [List.head?_append_of_ne_nil _ String.utf8EncodeChar_ne_nil] at h
          exact List.mem_of_head? h
        rw [List.head?_cons, (toUInt8_mem_encode hd).1 hmem]
      · intro h
        rcases Option.some.inj h with rfl
        exact absurd hd hc

/-! ## Places -/

/-- The byte of a line break. -/
def lineBreak : UInt8 := '\n'.toUInt8

/-- The place of the byte at an offset: its line is one more than there are line breaks in
front of it, its column the number of bytes since the last of them. -/
def positionAt (bytes : List UInt8) (offset : Nat) : Position where
  line := 1 + (bytes.take offset).count lineBreak
  column := ((bytes.take offset).reverse.takeWhile (· ≠ lineBreak)).length

/-- The place behind one more byte. -/
def Position.step (p : Position) (b : UInt8) : Position :=
  if b = lineBreak then ⟨p.line + 1, 0⟩ else ⟨p.line, p.column + 1⟩

/-- A position counts line breaks, and the bytes behind the last of them. -/
theorem foldl_step (text : List UInt8) :
    text.foldl Position.step Position.start =
      ⟨1 + text.count lineBreak, (text.reverse.takeWhile (· ≠ lineBreak)).length⟩ := by
  induction text using List.reverseRecOn with
  | nil => rfl
  | append_singleton text b ih =>
    rw [List.foldl_append, ih, List.foldl_cons, List.foldl_nil, List.reverse_append,
      List.count_append, List.reverse_singleton, List.singleton_append]
    by_cases hb : b = lineBreak
    · simp [Position.step, hb, Nat.add_assoc]
    · simp [Position.step, hb]

/-- Bytes without a line break only move the column. -/
theorem foldl_step_of_not_mem {text : List UInt8} (h : lineBreak ∉ text) (p : Position) :
    text.foldl Position.step p = ⟨p.line, p.column + text.length⟩ := by
  induction text generalizing p with
  | nil => rfl
  | cons b text ih =>
    have hb : b ≠ lineBreak := fun hb => h (by simp [hb])
    rw [List.foldl_cons, ih fun hmem => h (by simp [hmem])]
    simp [Position.step, hb, Nat.add_assoc, Nat.add_comm 1]

theorem isAscii_lineBreak : IsAscii '\n' := by decide

/-- One character moves a place as its bytes do. -/
theorem foldl_step_encode (p : Position) (c : Char) :
    (String.utf8EncodeChar c).foldl Position.step p = p.after c := by
  by_cases hc : c = '\n'
  · rw [hc]
    rfl
  · have hmem : lineBreak ∉ String.utf8EncodeChar c := fun hmem =>
      hc ((toUInt8_mem_encode isAscii_lineBreak).1 hmem)
    rw [foldl_step_of_not_mem hmem, String.length_utf8EncodeChar, Position.after, if_neg hc]

/-- A position moves on byte by byte. -/
theorem advance_eq (p : Position) (text : List Char) (offset : Nat) :
    p.advance text offset = ((bytes text).take offset).foldl Position.step p := by
  induction text generalizing p offset with
  | nil => simp [Position.advance]
  | cons c text ih =>
    have hlength := String.length_utf8EncodeChar c
    rw [bytes_cons, List.take_append, List.foldl_append, hlength]
    unfold Position.advance
    split
    case isTrue hle =>
      have hall : (String.utf8EncodeChar c).take offset = String.utf8EncodeChar c :=
        List.take_of_length_le (by omega)
      rw [ih, hall, foldl_step_encode]
    case isFalse hlt =>
      -- a line break is a single byte, so the offset is not behind it
      have hmem : lineBreak ∉ (String.utf8EncodeChar c).take offset := by
        intro hmem
        rcases (toUInt8_mem_encode isAscii_lineBreak).1 (List.mem_of_mem_take hmem) with rfl
        have hsize : '\n'.utf8Size = 1 := rfl
        have hzero : offset = 0 := by omega
        rw [hzero] at hmem
        exact absurd hmem List.not_mem_nil
      have hnone : offset - c.utf8Size = 0 := by omega
      rw [foldl_step_of_not_mem hmem, hnone, List.take_zero, List.foldl_nil, List.length_take,
        hlength, Nat.min_eq_left (by omega)]

/-- Where the text is measured in characters, its bytes are counted. -/
theorem ofOffset_eq (text : List Char) (offset : Nat) :
    Position.ofOffset text offset = positionAt (bytes text) offset := by
  rw [Position.ofOffset, advance_eq, foldl_step]
  rfl

/-- Texts with the same line breaks have the same places. -/
theorem positionAt_congr {text other : List UInt8}
    (h : List.Forall₂ (fun b d => b = lineBreak ↔ d = lineBreak) text other) (offset : Nat) :
    positionAt text offset = positionAt other offset := by
  have hfold : ∀ {text other : List UInt8} (p : Position),
      List.Forall₂ (fun b d => b = lineBreak ↔ d = lineBreak) text other →
        text.foldl Position.step p = other.foldl Position.step p := by
    intro text other p h
    induction h generalizing p with
    | nil => rfl
    | cons hstep _ ih =>
      rw [List.foldl_cons, List.foldl_cons, ih]
      simp only [Position.step, hstep]
  have htake := hfold Position.start (List.forall₂_take offset h)
  rw [foldl_step, foldl_step] at htake
  exact htake

end XrManifest.Text
