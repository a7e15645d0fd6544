import XrManifest.Proofs.Json.Overwriting
import XrManifest.Proofs.Manifest.BindingFaults

/-!
# Positions of syntax errors

A manifest is made strict before it is read as JSON, and a syntax error is placed in the
strict text. `Overwrites` says how the two texts differ, byte by byte: comments and commas
become spaces, and nothing moves. The main statement is `Manifest.read_positions`: the line
and column of a syntax error are those of its byte in the manifest as it was written.
-/

namespace XrManifest

open XrManifest.Text

namespace Json.Relaxed

/-! ## Overwritten bytes -/

def byteRoles (parts : List (List Char × Role)) : List Role :=
  parts.flatMap fun part => List.replicate (byteSize part.1) part.2

/-- The second bytes are the first ones, which have the given roles, but for spaces in place
of bytes of comments and of commas outside of strings and comments. Line breaks stay. -/
structure Overwrites (before after : List UInt8) (roles : List Role) : Prop where
  length_eq : after.length = before.length
  length_roles : roles.length = before.length
  lineBreak_iff : ∀ i : Nat, after[i]? = some lineBreak ↔ before[i]? = some lineBreak
  changed : ∀ (i : Nat) (b d : UInt8), before[i]? = some b → after[i]? = some d → d ≠ b →
    b ≠ lineBreak ∧ d = ' '.toUInt8 ∧
      (roles[i]? = some .comment ∨ roles[i]? = some .code ∧ b = ','.toUInt8)
  string_eq : ∀ i : Nat, roles[i]? = some .string → after[i]? = before[i]?

/-- A byte with a role stays or becomes a space. -/
def Kept (mark : UInt8 × Role) (d : UInt8) : Prop :=
  d = mark.1 ∨ mark.1 ≠ lineBreak ∧ d = ' '.toUInt8 ∧
    (mark.2 = .comment ∨ mark.2 = .code ∧ mark.1 = ','.toUInt8)

/-- No line break is lost, and none is made. -/
theorem Kept.lineBreak_iff {mark : UInt8 × Role} {d : UInt8} (h : Kept mark d) :
    mark.1 = lineBreak ↔ d = lineBreak := by
  rcases h with rfl | ⟨hbreak, rfl, -⟩
  · exact Iff.rfl
  · exact ⟨fun h => absurd h hbreak, fun h => absurd h (by decide)⟩

def byteMarks (marks : List (Char × Role)) : List (UInt8 × Role) :=
  marks.flatMap fun mark => (String.utf8EncodeChar mark.1).map fun b => (b, mark.2)

/-- The bytes of marked characters are those of the text. -/
theorem byteMarks_fst (marks : List (Char × Role)) :
    (byteMarks marks).map Prod.fst = bytes (marks.map Prod.fst) := by
  induction marks with
  | nil => rfl
  | cons mark marks ih =>
    have hencode : ((String.utf8EncodeChar mark.1).map fun b => (b, mark.2)).map Prod.fst =
        String.utf8EncodeChar mark.1 := by
      rw [List.map_map]
      exact List.map_id _
    rw [byteMarks, List.flatMap_cons, List.map_append, List.map_cons, bytes_cons, ← ih, hencode]
    rfl

theorem byteMarks_append (marks more : List (Char × Role)) :
    byteMarks (marks ++ more) = byteMarks marks ++ byteMarks more := List.flatMap_append

/-- Every byte of a character has the role of the character. -/
theorem byteMarks_part (text : List Char) (role : Role) :
    (byteMarks (text.map fun c => (c, role))).map Prod.snd =
      List.replicate (byteSize text) role := by
  induction text with
  | nil => rfl
  | cons c text ih =>
    have hencode : ((String.utf8EncodeChar c).map fun b => (b, role)).map Prod.snd =
        List.replicate c.utf8Size role := by
      rw [List.map_map, ← String.length_utf8EncodeChar]
      exact List.map_const'
    rw [byteMarks, List.map_cons, List.flatMap_cons, List.map_append, hencode, byteSize,
      List.replicate_add, ← ih]
    rfl

/-- The roles of the bytes are those of the parts. -/
theorem byteMarks_snd (parts : List (List Char × Role)) :
    (byteMarks (parts.flatMap fun part => part.1.map fun c => (c, part.2))).map Prod.snd =
      byteRoles parts := by
  induction parts with
  | nil => rfl
  | cons part parts ih =>
    rw [List.flatMap_cons, byteMarks_append, List.map_append, byteMarks_part, ih]
    rfl

/-- Marking characters does not change them. -/
theorem marked_fst (scope : Scope) (text : List Char) :
    (marked scope text).map Prod.fst = text := by
  induction text generalizing scope with
  | nil => rfl
  | cons c text ih =>
    rw [marked, List.map_cons, ih]

/-- A character that stays keeps its bytes. -/
theorem kept_encode (c : Char) (role : Role) :
    List.Forall₂ Kept ((String.utf8EncodeChar c).map fun b => (b, role))
      (String.utf8EncodeChar c) := by
  rw [List.forall₂_map_left_iff, List.forall₂_same]
  exact fun b _ => .inl rfl

/-- Each byte of a character in a comment becomes a space, unless it is a line break. -/
theorem kept_spaces (c : Char) :
    List.Forall₂ Kept ((String.utf8EncodeChar c).map fun b => (b, .comment))
      (bytes (spaces c)) := by
  rw [← blanks_encode, blanks, List.forall₂_map_left_iff, List.forall₂_map_right_iff,
    List.forall₂_same]
  intro b _
  by_cases hb : b = lineBreak
  · exact .inl (if_pos hb)
  · exact .inr ⟨hb, if_neg hb, .inl rfl⟩

/-- Every byte of a text stays or becomes a space in its strict text. -/
theorem kept_blanked (marks : List (Char × Role)) (afterValue : Bool) :
    List.Forall₂ Kept (byteMarks marks) (bytes (blanked afterValue marks)) := by
  induction marks generalizing afterValue with
  | nil => exact .nil
  | cons mark marks ih =>
    rcases mark with ⟨c, role⟩
    cases role with
    | comment =>
      rw [blanked, bytes_append]
      exact List.rel_append (kept_spaces c) (ih afterValue)
    | string => exact List.rel_append (kept_encode c .string) (ih true)
    | unclosed => exact List.rel_append (kept_encode c .unclosed) (ih afterValue)
    | code =>
      rw [blanked]
      split
      case isTrue hcomma =>
        -- of the characters of code only a comma can become a space
        subst hcomma
        split
        case isTrue => exact .cons (.inr ⟨by decide, rfl, .inr ⟨rfl, rfl⟩⟩) (ih false)
        case isFalse => exact List.rel_append (kept_encode ',' .code) (ih false)
      case isFalse => split <;> exact List.rel_append (kept_encode c .code) (ih _)

/-- The bytes at an offset are related, or both texts are over. -/
theorem kept_at {marks : List (UInt8 × Role)} {after : List UInt8}
    (h : List.Forall₂ Kept marks after) (i : Nat) :
    marks[i]? = none ∧ after[i]? = none ∨
      ∃ mark d, marks[i]? = some mark ∧ after[i]? = some d ∧ Kept mark d := by
  induction h generalizing i with
  | nil => exact .inl ⟨rfl, rfl⟩
  | @cons mark d marks after hkept _ ih =>
    cases i with
    | zero => exact .inr ⟨mark, d, rfl, rfl, hkept⟩
    | succ i => exact ih i

/-- What holds byte by byte holds of the whole text. -/
theorem overwrites_of_kept {marks : List (UInt8 × Role)} {after : List UInt8}
    (h : List.Forall₂ Kept marks after) :
    Overwrites (marks.map Prod.fst) after (marks.map Prod.snd) where
  length_eq := by rw [List.length_map, h.length_eq]
  length_roles := by rw [List.length_map, List.length_map]
  lineBreak_iff i := by
    rw [List.getElem?_map]
    rcases kept_at h i with ⟨hmark, hafter⟩ | ⟨mark, d, hmark, hafter, hkept⟩
    · rw [hmark, hafter]
      rfl
    · rw [hmark, hafter, Option.map_some, Option.some.injEq, Option.some.injEq]
      exact hkept.lineBreak_iff.symm
  changed i b d hb hd hne := by
    rw [List.getElem?_map] at hb ⊢
    rcases kept_at h i with ⟨hmark, -⟩ | ⟨mark, d', hmark, hafter, hkept⟩
    · rw [hmark] at hb
      cases hb
    · rw [hmark, Option.map_some, Option.some.injEq] at hb
      rw [hafter, Option.some.injEq] at hd
      subst hb hd
      rcases hkept with hsame | ⟨hbreak, hspace, hrole⟩
      · exact absurd hsame hne
      · rw [hmark, Option.map_some, Option.some.injEq, Option.some.injEq]
        exact ⟨hbreak, hspace, hrole⟩
  string_eq i hrole := by
    rw [List.getElem?_map] at hrole ⊢
    rcases kept_at h i with ⟨hmark, -⟩ | ⟨mark, d, hmark, hafter, hkept⟩
    · rw [hmark] at hrole
      cases hrole
    · rw [hmark, Option.map_some, Option.some.injEq] at hrole
      rw [hmark, hafter, Option.map_some, Option.some.injEq]
      rcases hkept with hsame | ⟨-, -, hcomment | ⟨hcode, -⟩⟩
      · exact hsame
      · rw [hrole] at hcomment
        cases hcomment
      · rw [hrole] at hcode
        cases hcode

/-- The strict text overwrites the parts that are comments, and trailing commas. -/
theorem overwrites_of_divided {text : List Char} {parts : List (List Char × Role)}
    (h : Divided text parts) :
    Overwrites (bytes text) (bytes (strictChars text)) (byteRoles parts) := by
  have hkept := overwrites_of_kept (kept_blanked (marked .code text) false)
  rw [byteMarks_fst, marked_fst, marked_of_divided h, byteMarks_snd, ← marked_of_divided h] at hkept
  exact hkept

/-- The bytes at an offset have the same place in both texts. -/
theorem positionAt_strictChars (text : List Char) (offset : Nat) :
    positionAt (bytes (strictChars text)) offset = positionAt (bytes text) offset := by
  -- the bytes agree about line breaks, which is all that a place depends on
  have hkept := kept_blanked (marked .code text) false
  have hbreaks := hkept.imp fun _ _ h => h.lineBreak_iff
  rw [← List.forall₂_map_left_iff (f := Prod.fst) (R := fun b d => b = lineBreak ↔ d = lineBreak),
    byteMarks_fst, marked_fst] at hbreaks
  exact (positionAt_congr hbreaks offset).symm

end Json.Relaxed

/-! ## Documents are not refused for their syntax -/

/-- The outcome is no syntax error. -/
def SyntaxFree {α : Type} (outcome : Except ReadError α) : Prop :=
  ∀ error, outcome ≠ .error (.notJson error)

section
variable {α β : Type}

theorem SyntaxFree.ok (a : α) : SyntaxFree (.ok a) := by
  intro error h
  cases h

/-- Two steps without syntax errors make one. -/
theorem SyntaxFree.bind {step : Except ReadError α} {next : α → Except ReadError β}
    (hstep : SyntaxFree step) (hnext : ∀ a, SyntaxFree (next a)) : SyntaxFree (step >>= next) := by
  intro error h
  rcases bind_eq_error.1 h with h | ⟨a, -, h⟩
  · exact hstep error h
  · exact hnext a error h

/-- Neither does a list of steps make a syntax error. -/
theorem syntaxFree_mapM {f : α → Except ReadError β} (hf : ∀ a, SyntaxFree (f a))
    (as : List α) : SyntaxFree (as.mapM f) := by
  intro error h
  obtain ⟨a, -, ha⟩ := exists_failure_of_mapM h
  exact hf a error ha

theorem syntaxFree_foldlM {f : β → α → Except ReadError β} (hf : ∀ b a, SyntaxFree (f b a))
    (as : List α) (start : β) : SyntaxFree (as.foldlM f start) := by
  intro error h
  obtain ⟨_, a, _, b, -, -, ha⟩ := foldlM_eq_error.1 h
  exact hf b a error ha

end

namespace Located

theorem syntaxFree_entries (node : Located) (expected : Expected) :
    SyntaxFree (node.entries expected) := by
  intro error h
  unfold entries at h
  split at h <;> cases h

/-- Looking for a property is no syntax error, whatever is found. -/
theorem syntaxFree_property? (node : Located) (name : String) :
    SyntaxFree (node.property? name) :=
  (node.syntaxFree_entries .object).bind fun _ => .ok _

theorem syntaxFree_property (node : Located) (name : String) :
    SyntaxFree (node.property name) := by
  refine (node.syntaxFree_property? name).bind fun found => ?_
  intro error h
  cases found <;> cases h

theorem syntaxFree_elements (node : Located) : SyntaxFree node.elements := by
  intro error h
  unfold elements at h
  split at h <;> cases h

theorem syntaxFree_string (node : Located) : SyntaxFree node.string := by
  intro error h
  unfold string at h
  split at h <;> cases h

theorem syntaxFree_boolean (node : Located) : SyntaxFree node.boolean := by
  intro error h
  unfold boolean at h
  split at h <;> cases h

/-- A number that does not fit is no syntax error. -/
theorem syntaxFree_int32 (node : Located) : SyntaxFree node.int32 := by
  intro error h
  unfold int32 at h
  split at h <;> cases h

theorem syntaxFree_actionType (node : Located) : SyntaxFree node.actionType := by
  refine node.syntaxFree_string.bind fun text => ?_
  intro error h
  cases hfound : ActionType.ofName? text with
  | none =>
    rw [hfound] at h
    cases h
  | some type =>
    rw [hfound] at h
    cases h

end Located

/-- An action that is not in order is no syntax error. -/
theorem Action.syntaxFree_ofNode (node : Located) : SyntaxFree (Action.ofNode node) := by
  refine (node.syntaxFree_property "name").bind fun name => ?_
  refine name.syntaxFree_string.bind fun _ => ?_
  refine (node.syntaxFree_property "localizedName").bind fun localizedName => ?_
  refine localizedName.syntaxFree_string.bind fun _ => ?_
  refine (node.syntaxFree_property "type").bind fun type => ?_
  refine type.syntaxFree_actionType.bind fun _ => ?_
  refine (node.syntaxFree_property? "useSubactionPaths").bind fun perHand => ?_
  cases perHand with
  | none => exact .ok _
  | some value => exact value.syntaxFree_boolean.bind fun _ => .ok _

namespace ProfileBindings

theorem syntaxFree_profileOf (node : Located) : SyntaxFree (profileOf node) := by
  intro error h
  unfold profileOf at h
  split at h
  · cases h
  · exact node.syntaxFree_string error (map_eq_error.1 h)

theorem syntaxFree_pathsOf (node : Located) : SyntaxFree (pathsOf node) :=
  node.syntaxFree_elements.bind (syntaxFree_mapM Located.syntaxFree_string)

/-- Neither is an entry that does not belong to a profile. -/
theorem Draft.syntaxFree_add (node : Located) (draft : Draft) (entry : String × Json) :
    SyntaxFree (draft.add node entry) := by
  rcases entry with ⟨key, value⟩
  rw [Draft.add]
  split
  · exact (syntaxFree_profileOf _).bind fun _ => .ok _
  · refine (syntaxFree_pathsOf _).bind fun paths => ?_
    intro error h
    split at h <;> cases h

/-- Suggested bindings fail for their form only. -/
theorem syntaxFree_ofNode (node : Located) : SyntaxFree (ofNode node) := by
  refine (node.syntaxFree_entries .bindingsObject).bind fun entries => ?_
  refine (syntaxFree_foldlM (Draft.syntaxFree_add node) entries Draft.empty).bind fun draft => ?_
  intro error h
  have hmissing := (Draft.finish_eq_error.1 h).2
  cases hmissing

end ProfileBindings

/-- So does an action set. -/
theorem ActionSet.syntaxFree_ofNode (node : Located) : SyntaxFree (ActionSet.ofNode node) := by
  refine (node.syntaxFree_property "name").bind fun name => ?_
  refine name.syntaxFree_string.bind fun _ => ?_
  refine (node.syntaxFree_property "localizedName").bind fun localizedName => ?_
  refine localizedName.syntaxFree_string.bind fun _ => ?_
  refine (node.syntaxFree_property "priority").bind fun priority => ?_
  refine priority.syntaxFree_int32.bind fun _ => ?_
  refine (node.syntaxFree_property "actions").bind fun actions => ?_
  refine actions.syntaxFree_elements.bind fun nodes => ?_
  refine (syntaxFree_mapM Action.syntaxFree_ofNode nodes).bind fun _ => ?_
  refine (node.syntaxFree_property "suggestedBindings").bind fun suggestions => ?_
  refine suggestions.syntaxFree_elements.bind fun nodes => ?_
  exact (syntaxFree_mapM ProfileBindings.syntaxFree_ofNode nodes).bind fun _ => .ok _

/-- Once a document is read, a manifest fails for its form only. -/
theorem Manifest.syntaxFree_ofJson (document : Json) : SyntaxFree (Manifest.ofJson document) := by
  let root : Located := ⟨document, []⟩
  refine (root.syntaxFree_property "actionSets").bind fun sets => ?_
  refine sets.syntaxFree_elements.bind fun nodes => ?_
  exact (syntaxFree_mapM ActionSet.syntaxFree_ofNode nodes).bind fun _ => .ok _

open Json.Relaxed

/-- The pass over the bytes gives the strict text of the characters. -/
theorem strip_eq (text : String) : strip text = toStrict text := by
  rw [strip, fromUTF8?_overwritten]
  rfl

/-- A manifest is refused for its syntax when its strict text is no JSON. -/
theorem Manifest.read_eq_notJson {text : String} {error : Json.SyntaxError} :
    Manifest.read text = .error (.notJson error) ↔
      ∃ fault, Json.readText (strip text).toList = .error fault ∧
        error = .ofFault (strip text).toList fault := by
  rw [Manifest.read, bind_eq_error, strip_eq, Json.read]
  cases Json.readText (toStrict text).toList with
  | ok document =>
    constructor
    · rintro (h | ⟨_, -, h⟩)
      · cases h
      -- a document that was read has other errors only
      · exact absurd h (Manifest.syntaxFree_ofJson _ error)
    · rintro ⟨_, h, -⟩
      cases h
  | error fault =>
    constructor
    · rintro (h | ⟨_, h, -⟩)
      · exact ⟨fault, rfl, (ReadError.notJson.inj (Except.error.inj h)).symm⟩
      · cases h
    · rintro ⟨_, hfault, rfl⟩
      rcases Except.error.inj hfault with rfl
      exact .inl rfl

/-- A syntax error is placed in the manifest as it was written. The bytes that the pass over
the manifest writes are always a text, and differ from the manifest only where a comment or
a comma becomes spaces, without a byte more or less. So the place of a byte in the strict
text, where the error is found, is its place in the manifest. -/
theorem Manifest.read_positions (text : String) :
    String.fromUTF8? (overwritten text) = some (strip text) ∧ toStrict text = strip text ∧
    (∃ parts, Divided text.toList parts) ∧
    (∀ parts, Divided text.toList parts →
      Overwrites (utf8 text) (utf8 (strip text)) (byteRoles parts)) ∧
    ∀ error, Manifest.read text = .error (.notJson error) ↔
      ∃ fault, Json.readText (strip text).toList = .error fault ∧
        error = ⟨fault.cause, positionAt (utf8 text) (fault.offset (strip text).toList)⟩ := by
  have hchars : (strip text).toList = strictChars text.toList := by
    rw [strip_eq, toStrict, String.toList_ofList]
  refine ⟨?_, (strip_eq text).symm, exists_divided text.toList, fun parts hparts => ?_,
    fun error => ?_⟩
  · rw [strip_eq]
    exact fromUTF8?_overwritten text
  · rw [utf8_eq, utf8_eq, hchars]
    exact overwrites_of_divided hparts
  · rw [Manifest.read_eq_notJson, hchars]
    -- positions are counted in the stripped text, where the line breaks stand as in the text
    have hplace : ∀ fault : Json.Fault, Json.SyntaxError.ofFault (strictChars text.toList) fault =
        ⟨fault.cause, positionAt (utf8 text) (fault.offset (strictChars text.toList))⟩ := by
      intro fault
      rw [Json.SyntaxError.ofFault, ofOffset_eq, positionAt_strictChars, utf8_eq]
    simp only [hplace]

/-- A string with an umlaut and a comma, a trailing comma, and a comment with an umlaut in
front of a character too many, which is the third byte of the second line. -/
theorem Manifest.read_positions_umlaut :
    ∃ parts offset, Divided "[\"ü,\", // ö\n] x".toList parts ∧
      Overwrites (utf8 "[\"ü,\", // ö\n] x") (utf8 (strip "[\"ü,\", // ö\n] x"))
        (byteRoles parts) ∧
      Manifest.read "[\"ü,\", // ö\n] x" =
        .error (.notJson ⟨.trailingText, positionAt (utf8 "[\"ü,\", // ö\n] x") offset⟩) ∧
      positionAt (utf8 "[\"ü,\", // ö\n] x") offset = ⟨2, 3⟩ := by
  have hparts : Divided "[\"ü,\", // ö\n] x".toList
      [(['['], .code), (['"', 'ü', ',', '"'], .string), ([','], .code), ([' '], .code),
        (['/', '/', ' ', 'ö'], .comment), (['\n'], .code), ([']'], .code), ([' '], .code),
        (['x'], .code)] := by
    have htail : Divided ['\n', ']', ' ', 'x']
        [(['\n'], .code), ([']'], .code), ([' '], .code), (['x'], .code)] :=
      .code (by decide) (by decide) (.code (by decide) (by decide) (.code (by decide) (by decide)
        (.code (by decide) (by decide) .nil)))
    have hcomment : Divided ('/' :: '/' :: ([' ', 'ö'] ++ ['\n', ']', ' ', 'x'])) _ :=
      .lineComment (by decide) (fun _ hc => (Option.some.inj hc).symm) htail
    have hbehind : Divided [',', ' ', '/', '/', ' ', 'ö', '\n', ']', ' ', 'x'] _ :=
      .code (by decide) (by decide) (.code (by decide) (by decide) hcomment)
    have hinside : Json.Enclosed ['ü', ','] :=
      .plain (by decide) (by decide) (.plain (by decide) (by decide) .nil)
    exact .code (by decide) (by decide) (.string hinside hbehind)
  have hread : Manifest.read "[\"ü,\", // ö\n] x" =
      .error (.notJson ⟨.trailingText, ⟨2, 3⟩⟩) := by
    decide +kernel
  obtain ⟨-, -, -, hoverwrites, herror⟩ := Manifest.read_positions "[\"ü,\", // ö\n] x"
  -- the place that was found is that of the fault in the text as it was written
  obtain ⟨fault, -, hplace⟩ := (herror _).1 hread
  obtain ⟨-, hposition⟩ := Json.SyntaxError.mk.inj hplace
  refine ⟨_, _, hparts, hoverwrites _ hparts, ?_, hposition.symm⟩
  rw [← hposition]
  exact hread

end XrManifest
