import XrManifest.Proofs.Json.Grammar
import XrManifest.Proofs.Json.RelaxedSyntax

/-!
# Another word in the place of one

A scalar of a document stands at one place of the text. Where another word is put there,
between the same characters, the text is read as the same document with another scalar, or it
is not read at all because the word is none. The main statement is `exists_place`.
-/

namespace XrManifest.Json

/-! ## Parts of a document -/

/-- The part stands at one place of the tokens of a document. With other tokens there, the
document is `whole` of what they make up. -/
def PartOf (depth : Nat) (whole : Json → Json) (part : Json) (tokens : List Token) : Prop :=
  ∃ inner front middle back, tokens = front ++ (middle ++ back) ∧ Spelled inner part middle ∧
    ∀ other others, Spelled inner other others →
      Spelled depth (whole other) (front ++ (others ++ back))

/-- A part of a part is a part. -/
theorem PartOf.trans {depth : Nat} {whole inside : Json → Json} {part small : Json}
    {tokens : List Token} (h : PartOf depth whole part tokens)
    (hpart : ∀ inner middle, Spelled inner part middle → PartOf inner inside small middle) :
    PartOf depth (whole ∘ inside) small tokens := by
  obtain ⟨inner, front, middle, back, rfl, hmiddle, hwhole⟩ := h
  obtain ⟨least, front', middle', back', rfl, hsmall, hinside⟩ := hpart inner middle hmiddle
  refine ⟨least, front ++ front', middle', back' ++ back, by simp, hsmall, ?_⟩
  intro other others hother
  have hspelled := hwhole _ _ (hinside other others hother)
  simpa using hspelled

theorem separated_cons (item : List Token) {items : List (List Token)} (hne : items ≠ []) :
    separated (item :: items) = item ++ .mark .comma :: separated items := by
  obtain ⟨next, items, rfl⟩ := List.exists_cons_of_ne_nil hne
  exact separated_cons_cons item next items

/-- One of the items stands at the same place, whatever it is. -/
theorem separated_append_cons (items others : List (List Token)) :
    ∃ front back, ∀ item, separated (items ++ item :: others) = front ++ (item ++ back) := by
  induction items with
  | nil =>
    cases others with
    | nil => exact ⟨[], [], fun item => by simp [separated_singleton]⟩
    | cons next others =>
      refine ⟨[], .mark .comma :: separated (next :: others), fun item => ?_⟩
      exact separated_cons_cons item next others
  | cons first items ih =>
    obtain ⟨front, back, hsame⟩ := ih
    refine ⟨first ++ .mark .comma :: front, back, fun item => ?_⟩
    rw [List.cons_append, separated_cons first (by simp), hsame]
    simp

/-- No scalar is an array or an object. -/
theorem Token.Scalar.kind {token : Token} {value : Json} (h : token.Scalar value) :
    value.kind ≠ .array ∧ value.kind ≠ .object := by
  cases token with
  | mark m => exact absurd rfl (h.ne_mark m)
  | quoted inside hinside =>
    obtain ⟨s, rfl, -⟩ := h.quoted
    exact ⟨by simp [Json.kind], by simp [Json.kind]⟩
  | word letters hword =>
    rcases h.word with ⟨n, rfl, -⟩ | rfl | ⟨b, rfl⟩ <;>
      exact ⟨by simp [Json.kind], by simp [Json.kind]⟩

/-- An element is a part of its array. -/
theorem Spelled.element {depth : Nat} {before after : List Json} {value : Json}
    {tokens : List Token} (h : Spelled depth (.array (before ++ value :: after)) tokens) :
    PartOf depth (fun other => .array (before ++ other :: after)) value tokens := by
  generalize hdocument : Json.array (before ++ value :: after) = document at h
  cases h with
  | scalar hscalar => exact absurd (hdocument ▸ rfl) hscalar.kind.1
  | object _ _ => cases hdocument
  | @array depth elements helements =>
    -- the elements are cut where their values are
    obtain ⟨left, rest, rfl, rfl, hrest⟩ := List.map_eq_append_iff.1 (Json.array.inj hdocument).symm
    obtain ⟨e, right, rfl, rfl, rfl⟩ := List.map_eq_cons_iff.1 hrest
    obtain ⟨front, back, hsame⟩ := separated_append_cons (left.map Element.tokens)
      (right.map Element.tokens)
    refine ⟨depth, .mark .arrayOpen :: front, e.tokens, back ++ [.mark .arrayClose], ?_,
      helements e (by simp), ?_⟩
    · rw [List.map_append, List.map_cons, hsame]
      simp
    -- any other value may stand at the cut
    · intro other others hother
      have hothers : ∀ x ∈ left ++ ⟨other, others⟩ :: right, Spelled depth x.value x.tokens := by
        intro x hx
        rcases List.mem_append.1 hx with hx | hx
        · exact helements x (by simp [hx])
        · rcases List.mem_cons.1 hx with rfl | hx
          · exact hother
          · exact helements x (by simp [hx])
      have hspelled := Spelled.array hothers
      rw [List.map_append, List.map_cons, List.map_append, List.map_cons, hsame] at hspelled
      simpa using hspelled

/-- The value of an entry is a part of its object. -/
theorem Spelled.entry {depth : Nat} {before after : List (String × Json)} {key : String}
    {value : Json} {tokens : List Token}
    (h : Spelled depth (.object (before ++ (key, value) :: after)) tokens) :
    PartOf depth (fun other => .object (before ++ (key, other) :: after)) value tokens := by
  generalize hdocument : Json.object (before ++ (key, value) :: after) = document at h
  cases h with
  -- an object is no scalar, so its tokens are those of entries
  | scalar hscalar => exact absurd (hdocument ▸ rfl) hscalar.kind.2
  | array _ => cases hdocument
  | @object depth entries hnames hvalues =>
    obtain ⟨left, rest, rfl, rfl, hrest⟩ :=
      List.map_eq_append_iff.1 (Json.object.inj hdocument).symm
    obtain ⟨⟨name, token, own, ownTokens⟩, right, rfl, hentry, rfl⟩ := List.map_eq_cons_iff.1 hrest
    obtain ⟨rfl, rfl⟩ := Prod.mk.inj hentry
    obtain ⟨front, back, hsame⟩ := separated_append_cons (left.map Entry.entryTokens)
      (right.map Entry.entryTokens)
    refine ⟨depth, .mark .objectOpen :: (front ++ [token, .mark .colon]), ownTokens,
      back ++ [.mark .objectClose], ?_, hvalues _ (List.mem_append_right _ List.mem_cons_self), ?_⟩
    · rw [List.map_append, List.map_cons, hsame]
      simp [Entry.entryTokens]
    · intro other others hother
      have hothers : ∀ x ∈ left ++ ⟨name, token, other, others⟩ :: right,
          x.name.Scalar (.string x.key) ∧ Spelled depth x.value x.tokens := by
        intro x hx
        rcases List.mem_append.1 hx with hx | hx
        · exact ⟨hnames x (by simp [hx]), hvalues x (by simp [hx])⟩
        · rcases List.mem_cons.1 hx with rfl | hx
          · exact ⟨hnames ⟨name, token, own, ownTokens⟩ (by simp), hother⟩
          · exact ⟨hnames x (by simp [hx]), hvalues x (by simp [hx])⟩
      have hspelled := Spelled.object (fun x hx => (hothers x hx).1) fun x hx => (hothers x hx).2
      rw [List.map_append, List.map_cons, List.map_append, List.map_cons, hsame] at hspelled
      simpa [Entry.entryTokens, Entry.entry] using hspelled

/-- Of the tokens of a document every word is a scalar. -/
theorem Spelled.scalar_of_mem {depth : Nat} {document : Json} {tokens : List Token}
    (h : Spelled depth document tokens) {letters : List Char} {hword : IsWord letters}
    (hmem : Token.word letters hword ∈ tokens) :
    ∃ value, (Token.word letters hword).Scalar value := by
  -- a word is no comma, so it stands in one of the items
  have hseparated : ∀ items : List (List Token), Token.word letters hword ∈ separated items →
      ∃ item ∈ items, Token.word letters hword ∈ item := by
    intro items hitems
    induction items with
    | nil => cases hitems
    | cons item items ih =>
      by_cases hne : items = []
      · subst hne
        rw [separated_singleton] at hitems
        exact ⟨item, List.mem_cons_self, hitems⟩
      · rw [separated_cons item hne, List.mem_append, List.mem_cons] at hitems
        rcases hitems with hitem | hcomma | hrest
        · exact ⟨item, List.mem_cons_self, hitem⟩
        · cases hcomma
        · obtain ⟨other, hother, hin⟩ := ih hrest
          exact ⟨other, List.mem_cons_of_mem item hother, hin⟩
  induction h with
  | @scalar _ token value h =>
    obtain rfl := List.mem_singleton.1 hmem
    exact ⟨value, h⟩
  | @array _ elements _ ih =>
    have hinner : Token.word letters hword ∈ separated (elements.map Element.tokens) := by
      simpa using hmem
    obtain ⟨item, hitem, hin⟩ := hseparated _ hinner
    obtain ⟨e, he, rfl⟩ := List.mem_map.1 hitem
    exact ih e he hin
  | @object _ entries hnames _ ih =>
    have hinner : Token.word letters hword ∈ separated (entries.map Entry.entryTokens) := by
      simpa using hmem
    obtain ⟨item, hitem, hin⟩ := hseparated _ hinner
    obtain ⟨e, he, rfl⟩ := List.mem_map.1 hitem
    -- an entry has its key, a colon and the tokens of its value
    rcases List.mem_cons.1 hin with hname | hrest
    · exact ⟨_, hname ▸ hnames e he⟩
    · rcases List.mem_cons.1 hrest with hcolon | hin
      · cases hcolon
      · exact ih e he hin

/-! ## Words of a text -/

variable {gap : List Char → Prop}

/-- What is put in front of a word does not move its end. -/
theorem atBoundary_append {front middle other : List Char}
    (h : AtBoundary middle → AtBoundary other) (hboundary : AtBoundary (front ++ middle)) :
    AtBoundary (front ++ other) := by
  cases front with
  | nil => exact h hboundary
  | cons c front => exact hboundary

/-- Tokens stay where they are in front of another text, unless a word would go on there. -/
theorem Spells.frame {tokens : List Token} {text middle : List Char}
    (h : Spells gap tokens text middle) :
    ∃ front, text = front ++ middle ∧
      ∀ other, (AtBoundary middle → AtBoundary other) →
        Spells gap tokens (front ++ other) other := by
  induction tokens generalizing text with
  | nil => exact ⟨[], h, fun other _ => rfl⟩
  | cons token tokens ih =>
    obtain ⟨before, behind, rfl, hbefore, hends, hspells⟩ := h
    obtain ⟨front, rfl, hframe⟩ := ih hspells
    refine ⟨before ++ (token.text ++ front), by simp, fun other hother => ?_⟩
    refine ⟨before, front ++ other, by simp, hbefore, ?_, hframe other hother⟩
    -- only a word looks at the character behind it
    cases token with
    | mark m => trivial
    | quoted inside _ => trivial
    | word letters _ => exact atBoundary_append hother hends

/-- Another word in the place of one leaves the other tokens as they are. -/
theorem Spells.exchange {front back : List Token} {letters : List Char} {hword : IsWord letters}
    {text rest : List Char} (h : Spells gap (front ++ .word letters hword :: back) text rest) :
    ∃ before after, text = before ++ (letters ++ after) ∧
      ∀ (other : List Char) (hother : IsWord other),
        Spells gap (front ++ .word other hother :: back) (before ++ (other ++ after)) rest := by
  obtain ⟨middle, hfront, space, after, rfl, hspace, hafter, hback⟩ := spells_append.1 h
  obtain ⟨before, rfl, hframe⟩ := hfront.frame
  refine ⟨before ++ space, after, by simp [Token.text], fun other hother => ?_⟩
  have hboundary : AtBoundary (space ++ (letters ++ after)) →
      AtBoundary (space ++ (other ++ after)) := by
    apply atBoundary_append
    -- a word does not start where no word goes on
    intro hletters
    obtain ⟨c, tail, rfl⟩ := List.exists_cons_of_ne_nil hword.ne_nil
    have hc : isWordChar c = true := hword.all c List.mem_cons_self
    rw [hletters c rfl] at hc
    cases hc
  rw [List.append_assoc]
  exact spells_append.2 ⟨_, hframe _ hboundary, space, after, rfl, hspace, hafter, hback⟩

namespace Relaxed

/-- Commas are dropped or kept whatever words stand among them. -/
theorem dropTrailing_exchange {front back relaxed : List Token} {letters : List Char}
    {hword : IsWord letters} {afterValue : Bool}
    (h : dropTrailing afterValue relaxed = front ++ .word letters hword :: back) :
    ∃ left right, relaxed = left ++ .word letters hword :: right ∧
      ∀ (other : List Char) (hother : IsWord other),
        dropTrailing afterValue (left ++ .word other hother :: right) =
          front ++ .word other hother :: back := by
  induction relaxed generalizing front afterValue with
  | nil => exact absurd h.symm (by simp [dropTrailing])
  | cons token relaxed ih =>
    -- whether a closing bracket comes next does not depend on the word
    have hhead : ∀ (left right : List Token) (other : List Char) (hother : IsWord other),
        (left ++ .word other hother :: right).head?.any Token.closes =
          (left ++ .word letters hword :: right).head?.any Token.closes := by
      intro left right other hother
      cases left <;> rfl
    rw [dropTrailing] at h
    by_cases hdrop : token = .mark .comma ∧
        (afterValue && relaxed.head?.any Token.closes) = true
    · rw [if_pos hdrop] at h
      obtain ⟨left, right, rfl, hexchange⟩ := ih h
      refine ⟨token :: left, right, rfl, fun other hother => ?_⟩
      rw [List.cons_append, dropTrailing, hhead, if_pos hdrop, hexchange]
    · rw [if_neg hdrop] at h
      cases front with
      | nil =>
        obtain ⟨rfl, rfl⟩ := List.cons.inj h
        refine ⟨[], relaxed, rfl, fun other hother => ?_⟩
        rw [List.nil_append, dropTrailing, if_neg (by simp)]
        rfl
      | cons first front =>
        obtain ⟨rfl, hrest⟩ := List.cons.inj h
        obtain ⟨left, right, rfl, hexchange⟩ := ih hrest
        refine ⟨token :: left, right, rfl, fun other hother => ?_⟩
        rw [List.cons_append, dropTrailing, hhead, if_neg hdrop, hexchange]
        rfl

/-- A word of the strict text stands in the relaxed text, and another word there gets into the
strict text. -/
theorem writes_exchange {text : List Char} {front back : List Token} {letters : List Char}
    {hword : IsWord letters}
    (h : Writes Blank Blank (front ++ .word letters hword :: back) (strictChars text)) :
    ∃ before after, text = before ++ (letters ++ after) ∧
      ∀ (other : List Char) (hother : IsWord other),
        Writes Blank Blank (front ++ .word other hother :: back)
          (strictChars (before ++ (other ++ after))) := by
  obtain ⟨relaxed, hrelaxed⟩ := writes_of_stripped h
  have hstrict : Writes Blank Blank (dropTrailing false relaxed) (strictChars text) :=
    stripped_writes hrelaxed false
  -- the two ways to write the strict text have the same tokens
  have hsame := hstrict.relaxed.unique h.relaxed
  obtain ⟨left, right, rfl, hdrop⟩ := dropTrailing_exchange hsame
  obtain ⟨rest, hspells, hrest⟩ := hrelaxed
  obtain ⟨before, after, rfl, hexchange⟩ := hspells.exchange
  refine ⟨before, after, rfl, fun other hother => ?_⟩
  rw [← hdrop other hother]
  exact stripped_writes ⟨rest, hexchange other hother, hrest⟩ false

/-- A scalar that is one word has a place in the text of its document. What is read with another
word there is the document with another scalar, and it is read where the word is one. -/
theorem exists_place {text : List Char} {document part : Json} {whole : Json → Json}
    {letters : List Char} {hword : IsWord letters}
    (h : readText (strictChars text) = .ok document)
    (hpart : ∀ tokens, Spelled maxDepth document tokens → PartOf maxDepth whole part tokens)
    (hletters : ∀ inner middle, Spelled inner part middle → middle = [.word letters hword]) :
    ∃ before after, text = before ++ (letters ++ after) ∧
      ∀ (other : List Char) (hother : IsWord other),
        (∀ value, (Token.word other hother).Scalar value →
          readText (strictChars (before ++ (other ++ after))) = .ok (whole value)) ∧
        ∀ found, readText (strictChars (before ++ (other ++ after))) = .ok found →
          ∃ value, (Token.word other hother).Scalar value := by
  obtain ⟨tokens, hwrites, hspelled⟩ := readText_iff_spelled.1 h
  obtain ⟨inner, front, middle, back, rfl, hmiddle, hwhole⟩ := hpart tokens hspelled
  obtain rfl := hletters inner middle hmiddle
  obtain ⟨before, after, htext, hexchange⟩ := writes_exchange hwrites
  refine ⟨before, after, htext, fun other hother => ?_⟩
  refine ⟨fun value hvalue => ?_, fun found hfound => ?_⟩
  · exact readText_iff_spelled.2 ⟨_, hexchange other hother, hwhole value _ (.scalar hvalue)⟩
  -- the other text has the exchanged tokens, and the word is among them
  · obtain ⟨others, hothers, hspelled⟩ := readText_iff_spelled.1 hfound
    have hsame := hothers.relaxed.unique (hexchange other hother).relaxed
    exact hspelled.scalar_of_mem (hsame ▸ List.mem_append_right _ List.mem_cons_self)

end Relaxed
end XrManifest.Json
