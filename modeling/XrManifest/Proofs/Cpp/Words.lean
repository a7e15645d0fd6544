import XrManifest.Proofs.Cpp.Nesting

/-!
# Words

How the parts of a line are kept apart: some characters stand between names only, and a text
is cut in front of the first of them, or behind the last.
-/

namespace XrManifest.Cpp

open XrManifest.Text

/-! ## Names and types -/

/-- The characters that stand between names. -/
def marks : List Char :=
  specials ++ blanks ++ ['(', ')', '[', ']', ',', ';', '=', '!', '&', '*', '.']

/-- Every other character can stand in a name. Most are known not to be marks without a look at
the list. -/
def inName (c : Char) : Bool := c.isAlphanum || c = '_' || c ∉ marks

/-- A number may have a point, and the members of a variable stand behind points. -/
def inWord (c : Char) : Bool := inName c || c = '.'

def inType (c : Char) : Bool := inName c || c ∈ [' ', '&', '*']

def startsWithDigit (text : List Char) : Bool := text.head?.any Char.isDigit

/-- A text that can be a name. It may be empty. -/
def IsName (text : String) : Prop := text.toList.all inName = true

/-- A text that can be a number, with a point or without. -/
def IsNumeral (text : String) : Prop :=
  startsWithDigit text.toList = true ∧ text.toList.all inWord = true

/-- A text that can be a type. -/
def IsType (text : String) : Prop := text.toList.all inType = true

instance (text : String) : Decidable (IsName text) := inferInstanceAs (Decidable (_ = _))

instance (text : String) : Decidable (IsNumeral text) := inferInstanceAs (Decidable (_ ∧ _))

instance (text : String) : Decidable (IsType text) := inferInstanceAs (Decidable (_ = _))

section
variable {c : Char} {text : String}

/-- The look at the list may be left out where the first tests decide. -/
theorem inName_iff : inName c = true ↔ c ∉ marks := by
  have hnone : marks.any (fun d => d.isAlphanum || d = '_') = false := by decide
  rw [inName, Bool.or_eq_true, decide_eq_true_eq, or_iff_right_iff_imp]
  exact fun hc hmark => List.any_eq_false.1 hnone c hmark hc

theorem inWord_of_inName (h : inName c = true) : inWord c = true := by simp [inWord, h]

theorem IsName.mem (h : IsName text) (hc : c ∈ text.toList) : inName c = true :=
  List.all_eq_true.1 h c hc

theorem IsName.not_mem (h : IsName text) (hc : inName c = false) : c ∉ text.toList := by
  intro hmem
  rw [h.mem hmem] at hc
  cases hc

theorem IsType.not_mem (h : IsType text) (hc : inType c = false) : c ∉ text.toList := by
  intro hmem
  rw [List.all_eq_true.1 h c hmem] at hc
  cases hc

/-- A character that cannot stand in a type stands nowhere in one. -/
theorem IsType.all_ne (h : IsType text) (hc : inType c = false) :
    text.toList.all (· ≠ c) = true := by
  rw [List.all_eq_true]
  intro d hd
  exact decide_eq_true fun heq => h.not_mem hc (heq ▸ hd)

/-- Every name can be a type. -/
theorem IsName.isType (h : IsName text) : IsType text :=
  List.all_eq_true.2 fun _ hc => by simp [inType, h.mem hc]

theorem IsType.append {more : String} (h : IsType text) (hmore : IsType more) :
    IsType (text ++ more) := by
  rw [IsType, String.toList_append, List.all_append, h, hmore, Bool.and_self]

theorem IsName.append {more : String} (h : IsName text) (hmore : IsName more) :
    IsName (text ++ more) := by
  rw [IsName, String.toList_append, List.all_append, h, hmore, Bool.and_self]

/-- No character of a type is special to a reader of code. -/
theorem IsType.plain (h : IsType text) : Plain text :=
  plain_of_all inType (by decide) fun _ hc => List.all_eq_true.1 h _ hc

theorem IsName.plain (h : IsName text) : Plain text := h.isType.plain

/-- A name that is not empty can start a line. -/
theorem IsName.starts (h : IsName text) (hne : text ≠ "") : Starts text := by
  have hlist : text.toList ≠ [] := fun hnil => hne (String.toList_eq_nil_iff.1 hnil)
  obtain ⟨c, rest, htext⟩ := List.exists_cons_of_ne_nil hlist
  have hc : inName c = true := h.mem (htext ▸ List.mem_cons_self)
  simp only [inName_iff, marks, List.mem_append, not_or] at hc
  refine ⟨c, rest, htext, by simpa [isBlank] using hc.1.2, ?_⟩
  rintro rfl
  exact hc.1.1 (by decide)

/-- It can also end one. -/
theorem IsName.ends (h : IsName text) (hne : text ≠ "") : Ends text := by
  have hlist : text.toList ≠ [] := fun hnil => hne (String.toList_eq_nil_iff.1 hnil)
  have hlast : inName (text.toList.getLast hlist) = true := h.mem (List.getLast_mem hlist)
  simp only [inName_iff, marks, List.mem_append, not_or] at hlast
  rw [Ends, List.getLast?_eq_some_getLast hlist]
  simpa [isBlank] using hlast.1.2

theorem IsNumeral.plain (h : IsNumeral text) : Plain text :=
  plain_of_all inWord (by decide) fun _ hc => List.all_eq_true.1 h.2 _ hc

end

/-- A number is spelled by its decimal digits. -/
theorem toList_toString_nat (n : Nat) : (toString n).toList = Nat.toDigits 10 n := Nat.toList_repr

/-- A number without a sign is spelled like a name. -/
theorem isName_nat (n : Nat) : IsName (toString n) := by
  rw [IsName, toList_toString_nat, List.all_eq_true]
  intro c hc
  have hdigit : c.isDigit = true := Nat.isDigit_of_mem_toDigits (by decide) (by decide) hc
  simp [inName, Char.isAlphanum, hdigit]

/-- So is one with a sign: the minus is no mark. -/
theorem isName_int (value : Int) : IsName (toString value) := by
  cases value with
  | ofNat n => exact isName_nat n
  | negSucc n => exact IsName.append (by decide : IsName "-") (isName_nat (n + 1))

/-! ## Cuts -/

section
variable {p : Char → Bool} {mark : Char} {front rest : List Char}

/-- What is taken from a text ends at the first mark. -/
theorem takeWhile_cut (hfront : front.all p = true) (hmark : ∀ c ∈ rest.head?, p c = false) :
    (front ++ rest).takeWhile p = front := by
  rw [List.takeWhile_append_of_pos (List.all_eq_true.1 hfront)]
  cases rest with
  | nil => simp
  | cons c rest => simp [hmark c rfl]

/-- What is left of it starts there. -/
theorem dropWhile_cut (hfront : front.all p = true) (hmark : ∀ c ∈ rest.head?, p c = false) :
    (front ++ rest).dropWhile p = rest := by
  rw [List.dropWhile_append_of_pos (List.all_eq_true.1 hfront)]
  cases rest with
  | nil => rfl
  | cons c rest => simp [hmark c rfl]

/-- Cuts a text at the last `mark`. -/
def cutLast (mark : Char) : List Char → Option (List Char × List Char)
  | [] => none
  | c :: rest =>
    match cutLast mark rest with
    | some (front, back) => some (c :: front, back)
    | none => if c = mark then some ([], rest) else none

theorem cutLast_of_not_mem (h : mark ∉ rest) : cutLast mark rest = none := by
  induction rest with
  | nil => rfl
  | cons c rest ih =>
    rw [List.mem_cons, not_or] at h
    rw [cutLast, ih h.2]
    exact if_neg (Ne.symm h.1)

/-- A text is cut at a mark behind which there is no other. -/
theorem cutLast_append (front : List Char) (h : mark ∉ rest) :
    cutLast mark (front ++ mark :: rest) = some (front, rest) := by
  induction front with
  | nil =>
    rw [List.nil_append, cutLast, cutLast_of_not_mem h]
    exact if_pos rfl
  | cons c front ih => rw [List.cons_append, cutLast, ih]

/-- What is in front of a mark is shorter than the text. -/
theorem length_of_cutLast {text : List Char} (h : cutLast mark text = some (front, rest)) :
    front.length < text.length := by
  induction text generalizing front with
  | nil => cases h
  | cons c text ih =>
    rw [cutLast] at h
    split at h
    · rename_i front' _ hcut
      obtain ⟨rfl, rfl⟩ := Prod.mk.inj (Option.some.inj h)
      exact Nat.succ_lt_succ (ih hcut)
    · split at h
      · obtain ⟨rfl, -⟩ := Prod.mk.inj (Option.some.inj h)
        exact Nat.succ_pos _
      · cases h

end

theorem dropPrefix?_append (front : String) (rest : List Char) :
    (front.toList ++ rest).dropPrefix? front.toList = some rest :=
  List.dropPrefix?_append_of_beq rest BEq.rfl

end XrManifest.Cpp
