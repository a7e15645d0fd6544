import Mathlib.Data.String.Basic
import XrManifest.Proofs.Text.Bytes

/-!
# The order of texts

Texts are compared character by character, and characters by their numbers. UTF-8 keeps this
order: where two texts differ first, the encodings of the two characters have some first bytes
in common, and then the character with the smaller number has the smaller byte. The main
statement is `utf8_lt_utf8`.
-/

namespace XrManifest.Text

/-! ## Characters -/

/-- A smaller number has a smaller leading digit, or the same one and a smaller last digit. -/
theorem lt_digits {m n : Nat} (hlt : m < n) :
    m / 64 < n / 64 ∨ m / 64 = n / 64 ∧ m % 64 < n % 64 := by omega

theorem ofNat_lt_ofNat {m n : Nat} (hlt : m < n) (hn : n < 256) :
    UInt8.ofNat m < UInt8.ofNat n := by
  rw [UInt8.lt_iff_toNat_lt, UInt8.toNat_ofNat', UInt8.toNat_ofNat']
  omega

/-- Encodings of four bytes are compared digit by digit: the first byte has the digits of a
number in front of its last three to base 64, the other bytes have one of these each. -/
theorem fourBytes_lt {m n : Nat} (hlt : m < n) (hn : n < 8 * 64 * 64 * 64) (x y : List UInt8) :
    UInt8.ofNat (m / 262144 % 8 + 240) :: UInt8.ofNat (m / 4096 % 64 + 128) ::
        UInt8.ofNat (m / 64 % 64 + 128) :: UInt8.ofNat (m % 64 + 128) :: x <
      UInt8.ofNat (n / 262144 % 8 + 240) :: UInt8.ofNat (n / 4096 % 64 + 128) ::
        UInt8.ofNat (n / 64 % 64 + 128) :: UInt8.ofNat (n % 64 + 128) :: y := by
  have h4096 : ∀ k, k / 4096 = k / 64 / 64 := fun k => (Nat.div_div_eq_div_mul k 64 64).symm
  have h262144 : ∀ k, k / 262144 = k / 64 / 64 / 64 := fun k => by
    rw [← h4096, Nat.div_div_eq_div_mul]
  have hdigit : ∀ {p q : Nat}, p % 64 < q % 64 →
      UInt8.ofNat (p % 64 + 128) < UInt8.ofNat (q % 64 + 128) :=
    fun hpq => ofNat_lt_ofNat (by omega) (by omega)
  simp only [h4096, h262144, List.cons_lt_cons_iff]
  -- the digits to base 64 are compared from the front, where the first difference decides
  rcases lt_digits hlt with h1 | ⟨h1, h0⟩
  · rcases lt_digits h1 with h2 | ⟨h2, h1⟩
    · rcases lt_digits h2 with h3 | ⟨h3, h2⟩
      · exact .inl (ofNat_lt_ofNat (by omega) (by omega))
      · exact .inr ⟨by rw [h3], .inl (hdigit h2)⟩
    · exact .inr ⟨by rw [h2], .inr ⟨by rw [h2], .inl (hdigit h1)⟩⟩
  · exact .inr ⟨by rw [h1], .inr ⟨by rw [h1], .inr ⟨by rw [h1], .inl (hdigit h0)⟩⟩⟩

/-- The encoding of a character with a smaller number is smaller, whatever stands behind it. -/
theorem encode_append_lt {c d : Char} (hlt : c.toNat < d.toNat) (x y : List UInt8) :
    String.utf8EncodeChar c ++ x < String.utf8EncodeChar d ++ y := by
  have hd : d.toNat < 0x110000 := by
    rcases d.valid with h | ⟨-, h⟩
    · exact Nat.lt_trans h (by decide)
    · exact h
  unfold String.utf8EncodeChar
  simp only [Char.toNat_val]
  generalize c.toNat = m at hlt ⊢
  generalize d.toNat = n at hlt hd ⊢
  by_cases hfour : m ≤ 0xffff
  · -- encodings of different length differ in their first bytes
    split_ifs <;> simp only [List.cons_append, List.nil_append, List.cons_lt_cons_iff,
      UInt8.lt_iff_toNat_lt, ← UInt8.toNat_inj, UInt8.toNat_ofNat'] <;> omega
  · have hm : ¬ m ≤ 127 ∧ ¬ m ≤ 2047 := by omega
    have hn : ¬ n ≤ 127 ∧ ¬ n ≤ 2047 ∧ ¬ n ≤ 65535 := by omega
    simp only [hm, hn, hfour, if_false, List.cons_append, List.nil_append]
    exact fourBytes_lt hlt (by omega) x y

/-! ## Texts -/

/-- Texts are ordered as their bytes are. -/
theorem bytes_lt_bytes {text other : List Char} (hlt : text < other) :
    bytes text < bytes other := by
  induction text generalizing other with
  | nil =>
    cases other with
    | nil => cases hlt
    | cons d other =>
      -- every character has a byte
      obtain ⟨b, more, hmore, -⟩ := exists_encode d
      rw [bytes_cons, hmore]
      exact List.nil_lt_cons _ _
  | cons c text ih =>
    cases other with
    | nil => cases hlt
    | cons d other =>
      rw [bytes_cons, bytes_cons]
      rcases List.cons_lt_cons_iff.1 hlt with hchar | ⟨rfl, hrest⟩
      · exact encode_append_lt hchar _ _
      · exact List.append_left_lt (ih hrest)

/-- Texts have the order of their bytes. -/
theorem utf8_lt_utf8 {text other : String} : utf8 text < utf8 other ↔ text < other := by
  have hlt : ∀ {text other : String}, text < other → utf8 text < utf8 other := by
    intro text other h
    rw [utf8_eq, utf8_eq]
    exact bytes_lt_bytes (String.lt_iff_toList_lt.1 h)
  constructor
  · intro h
    rcases lt_trichotomy text other with hless | rfl | hgreater
    · exact hless
    · exact absurd h (List.lt_irrefl _)
    · exact absurd (hlt hgreater) (List.lt_asymm h)
  · exact hlt

end XrManifest.Text
