import XrManifest.Proofs.Cpp.Nesting
import XrManifest.Proofs.Naming.Characters

/-!
# Lines behind a test for success

Which lines of a text keep the outcome of a call, which ones assign an entry of a table, and
where these lines stand. The main statement is `Layout.Guarded.guardedText`: a layout that is
put together from harmless lines and blocks for success is written as a text in which these
lines stand in such blocks.
-/

namespace XrManifest.Cpp

open XrManifest.Text XrManifest.Naming

/-! ## Kinds of lines -/

def linesOf (text : List Char) : List (List Char) := text.splitOn '\n'

/-- A line without the spaces in front of it. -/
def content (line : List Char) : List Char := line.dropWhile (· = ' ')

/-- The line keeps the outcome of a call. -/
def KeepsResult (line : List Char) : Prop := "result = ".toList <+: content line

/-- The line assigns an entry of a table: it starts with an identifier and a bracket. -/
def AssignsEntry (line : List Char) : Prop :=
  ((content line).dropWhile isIdentifierChar).head? = some '['

def TestsSuccess (line : List Char) : Prop := content line = "if (XR_SUCCEEDED(result))".toList

instance (line : List Char) : Decidable (KeepsResult line) :=
  inferInstanceAs (Decidable ("result = ".toList <+: content line))

instance (line : List Char) : Decidable (AssignsEntry line) :=
  inferInstanceAs (Decidable (_ = _))

instance (line : List Char) : Decidable (TestsSuccess line) :=
  inferInstanceAs (Decidable (_ = _))

/-! ## Blocks for success -/

/-- The line that opens a block for success. -/
def testLine (depth : Nat) : List Char :=
  Layout.margin depth ++ "if (XR_SUCCEEDED(result))".toList

/-- The brace in front of the body of a block. -/
def openLine (depth : Nat) : List Char := Layout.margin depth ++ ['\x7b']

/-- The brace behind the body of a block. -/
def closeLine (depth : Nat) : List Char := Layout.margin depth ++ ['\x7d']

/-- The line is empty, or stands deeper than `depth`. -/
def Deeper (depth : Nat) (line : List Char) : Prop :=
  line = [] ∨ Layout.margin (depth + 1) <+: line

/-- Lines around a block for success: its body is cut off by its braces. -/
structure IsBlock (lines front : List (List Char)) (depth : Nat) (body behind : List (List Char)) :
    Prop where
  lines_eq : lines =
    front ++ testLine depth :: openLine depth :: (body ++ closeLine depth :: behind)
  deeper : ∀ line ∈ body, Deeper depth line

/-- Lines in which outcomes are kept in the end of blocks for success, once in a block, and
entries are assigned in such blocks only. -/
structure GuardedText (lines : List (List Char)) : Prop where
  keeps : ∀ before line after, lines = before ++ line :: after → KeepsResult line →
    ∃ front depth body behind, IsBlock lines front depth (body ++ [line]) behind ∧
      before = front ++ testLine depth :: openLine depth :: body
  once : ∀ front depth body behind, IsBlock lines front depth body behind →
    body.countP KeepsResult ≤ 1
  entries : ∀ before line after, lines = before ++ line :: after → AssignsEntry line →
    ∃ front depth first second behind, IsBlock lines front depth (first ++ line :: second) behind ∧
      before = front ++ testLine depth :: openLine depth :: first

/-! ## Lines that are put together -/

/-- A line outside of the blocks for success. -/
structure Harmless (line : List Char) : Prop where
  keeps : ¬ KeepsResult line
  entry : ¬ AssignsEntry line
  test : ¬ TestsSuccess line

instance (line : List Char) : Decidable (Harmless line) :=
  decidable_of_iff (¬ KeepsResult line ∧ ¬ AssignsEntry line ∧ ¬ TestsSuccess line)
    ⟨fun h => ⟨h.1, h.2.1, h.2.2⟩, fun h => ⟨h.keeps, h.entry, h.test⟩⟩

/-- The body of a block for success: there is no other test in it, and only its last line may
keep an outcome. -/
structure IsBody (depth : Nat) (body : List (List Char)) : Prop where
  deeper : ∀ line ∈ body, Deeper depth line
  test : ∀ line ∈ body, ¬ TestsSuccess line
  keeps : ∀ line ∈ body.dropLast, ¬ KeepsResult line

/-- Lines that are put together from harmless lines and blocks for success. -/
inductive GuardedLines : List (List Char) → Prop where
  | nil : GuardedLines []
  | line {line : List Char} {lines : List (List Char)} (harmless : Harmless line)
      (rest : GuardedLines lines) : GuardedLines (line :: lines)
  | block {depth : Nat} {body lines : List (List Char)} (inside : IsBody depth body)
      (rest : GuardedLines lines) :
      GuardedLines (testLine depth :: openLine depth :: (body ++ closeLine depth :: lines))

/-! ## Braces and margins -/

/-- Spaces in front of a line do not count. -/
theorem content_margin (depth : Nat) (text : List Char) :
    content (Layout.margin depth ++ text) = content text := by
  unfold content Layout.margin
  rw [List.dropWhile_append_of_pos]
  intro c hc
  simpa using List.eq_of_mem_replicate hc

theorem keepsResult_margin {depth : Nat} {text : List Char} :
    KeepsResult (Layout.margin depth ++ text) ↔ KeepsResult text := by
  rw [KeepsResult, content_margin, KeepsResult]

theorem assignsEntry_margin {depth : Nat} {text : List Char} :
    AssignsEntry (Layout.margin depth ++ text) ↔ AssignsEntry text := by
  rw [AssignsEntry, content_margin, AssignsEntry]

theorem testsSuccess_margin {depth : Nat} {text : List Char} :
    TestsSuccess (Layout.margin depth ++ text) ↔ TestsSuccess text := by
  rw [TestsSuccess, content_margin, TestsSuccess]

theorem harmless_margin {depth : Nat} {text : List Char} :
    Harmless (Layout.margin depth ++ text) ↔ Harmless text := by
  constructor
  · rintro ⟨hkeeps, hentry, htest⟩
    exact ⟨mt keepsResult_margin.2 hkeeps, mt assignsEntry_margin.2 hentry,
      mt testsSuccess_margin.2 htest⟩
  · rintro ⟨hkeeps, hentry, htest⟩
    exact ⟨mt keepsResult_margin.1 hkeeps, mt assignsEntry_margin.1 hentry,
      mt testsSuccess_margin.1 htest⟩

theorem testsSuccess_testLine (depth : Nat) : TestsSuccess (testLine depth) :=
  testsSuccess_margin.2 (by decide)

theorem harmless_openLine (depth : Nat) : Harmless (openLine depth) :=
  harmless_margin.2 (by decide +kernel)

theorem harmless_closeLine (depth : Nat) : Harmless (closeLine depth) :=
  harmless_margin.2 (by decide +kernel)

/-- A test for success is no line that has to stand in a block. -/
theorem TestsSuccess.ordinary {line : List Char} (h : TestsSuccess line) :
    ¬ KeepsResult line ∧ ¬ AssignsEntry line := by
  unfold TestsSuccess at h
  unfold KeepsResult AssignsEntry
  rw [h]
  decide +kernel

/-- The brace that closes a block is not in it, so it ends the body. -/
theorem not_deeper_closeLine (depth : Nat) : ¬ Deeper depth (closeLine depth) := by
  rintro (hnil | hstart)
  · simp [closeLine] at hnil
  · have hlength := hstart.length_le
    simp [closeLine, Layout.margin] at hlength
    omega

/-! ## Lines in blocks -/

section
variable {lines before after : List (List Char)} {line : List Char}

/-- Where one list is cut at an element that is of another kind than all elements in front of
it, the cut is unique. -/
theorem cut_unique {α : Type} {P : α → Prop} {first second rest rest' : List α} {a b : α}
    (hfirst : ∀ c ∈ first, P c) (hsecond : ∀ c ∈ second, P c) (ha : ¬ P a) (hb : ¬ P b)
    (h : first ++ a :: rest = second ++ b :: rest') : first = second ∧ a = b := by
  -- the parts in front are taken off in step
  induction first generalizing second with
  | nil =>
    cases second with
    | nil => exact ⟨rfl, (List.cons.inj h).1⟩
    | cons c second =>
      have hhead : a = c := (List.cons.inj h).1
      exact absurd (hsecond c List.mem_cons_self) (hhead ▸ ha)
  | cons c first ih =>
    cases second with
    | nil =>
      have hhead : c = b := (List.cons.inj h).1
      exact absurd (hfirst c List.mem_cons_self) (hhead ▸ hb)
    | cons d second =>
      obtain ⟨hhead, htail⟩ := List.cons.inj h
      obtain ⟨hrest, hcut⟩ := ih (fun e he => hfirst e (List.mem_cons_of_mem c he))
        (fun e he => hsecond e (List.mem_cons_of_mem d he)) htail
      exact ⟨by rw [hhead, hrest], hcut⟩

/-- A block stays one behind more lines. -/
theorem IsBlock.behind {front body behind : List (List Char)} {depth : Nat}
    (h : IsBlock lines front depth body behind) (more : List (List Char)) :
    IsBlock (more ++ lines) (more ++ front) depth body behind :=
  ⟨by rw [h.lines_eq, List.append_assoc], h.deeper⟩

/-- A line that has to stand in a block for success stands in one. -/
theorem GuardedLines.inside (h : GuardedLines lines) (hlines : lines = before ++ line :: after)
    (hline : KeepsResult line ∨ AssignsEntry line) :
    ∃ front depth first second behind,
      IsBlock lines front depth (first ++ line :: second) behind ∧
        before = front ++ testLine depth :: openLine depth :: first ∧
        IsBody depth (first ++ line :: second) := by
  induction h generalizing before with
  | nil => simp at hlines
  | @line head lines hharmless _ ih =>
    cases before with
    | nil =>
      -- the line would be harmless
      obtain ⟨rfl, -⟩ := List.cons.inj hlines
      exact absurd hline (not_or.2 ⟨hharmless.keeps, hharmless.entry⟩)
    | cons other before =>
      obtain ⟨rfl, hrest⟩ := List.cons.inj hlines
      obtain ⟨front, depth, first, second, behind, hblock, hbefore, hbody⟩ := ih hrest
      exact ⟨head :: front, depth, first, second, behind, hblock.behind [head],
        by rw [hbefore, List.cons_append], hbody⟩
  | @block depth body lines hinside _ ih =>
    have hsplit : (testLine depth :: openLine depth :: body) ++ (closeLine depth :: lines) =
        before ++ line :: after := hlines
    rcases List.append_eq_append_iff.1 hsplit with ⟨more, hbefore, hmore⟩ | ⟨more, hmore, hback⟩
    · -- behind the body
      cases more with
      | nil =>
        obtain ⟨rfl, -⟩ := List.cons.inj hmore
        have hharmless := harmless_closeLine depth
        exact absurd hline (not_or.2 ⟨hharmless.keeps, hharmless.entry⟩)
      | cons other more =>
        obtain ⟨rfl, hrest⟩ := List.cons.inj hmore
        obtain ⟨front, inner, first, second, behind, hblock, hfront, hbody⟩ := ih hrest
        refine ⟨(testLine depth :: openLine depth :: body) ++ closeLine depth :: front, inner,
          first, second, behind, ?_, ?_, hbody⟩
        · have hwhole := hblock.behind
            ((testLine depth :: openLine depth :: body) ++ [closeLine depth])
          simpa using hwhole
        · rw [hbefore, hfront]
          simp
    · -- the line is not the one behind the body, so it is in the block
      cases more with
      | nil =>
        obtain ⟨rfl, -⟩ := List.cons.inj hback
        have hharmless := harmless_closeLine depth
        exact absurd hline (not_or.2 ⟨hharmless.keeps, hharmless.entry⟩)
      | cons other second =>
        obtain ⟨rfl, hafter⟩ := List.cons.inj hback
        match before, hmore with
        | [], hmore =>
          obtain ⟨rfl, -⟩ := List.cons.inj hmore
          exact absurd hline (not_or.2 (testsSuccess_testLine depth).ordinary)
        | [_], hmore =>
          obtain ⟨rfl, -⟩ := List.cons.inj (List.cons.inj hmore).2
          have hharmless := harmless_openLine depth
          exact absurd hline (not_or.2 ⟨hharmless.keeps, hharmless.entry⟩)
        | _ :: _ :: first, hmore =>
          obtain ⟨rfl, hrest⟩ := List.cons.inj hmore
          obtain ⟨rfl, rfl⟩ := List.cons.inj hrest
          exact ⟨[], depth, first, second, lines, ⟨rfl, hinside.deeper⟩, rfl, hinside⟩

/-- A line that tests for success opens a block. -/
theorem GuardedLines.body_of_test (h : GuardedLines lines)
    (hlines : lines = before ++ line :: after) (hline : TestsSuccess line) :
    ∃ depth body behind, line = testLine depth ∧
      after = openLine depth :: (body ++ closeLine depth :: behind) ∧ IsBody depth body := by
  induction h generalizing before with
  | nil => simp at hlines
  | @line head lines hharmless _ ih =>
    cases before with
    | nil =>
      obtain ⟨rfl, -⟩ := List.cons.inj hlines
      exact absurd hline hharmless.test
    | cons other before => exact ih (List.cons.inj hlines).2
  | @block depth body lines hinside _ ih =>
    match before, hlines with
    | [], hlines =>
      obtain ⟨rfl, rfl⟩ := List.cons.inj hlines
      exact ⟨depth, body, lines, rfl, rfl, hinside⟩
    -- the line is the brace that opens the block
    | [_], hlines =>
      obtain ⟨rfl, -⟩ := List.cons.inj (List.cons.inj hlines).2
      exact absurd hline (harmless_openLine depth).test
    | _ :: _ :: before, hlines =>
      have hrest : body ++ closeLine depth :: lines = before ++ line :: after :=
        (List.cons.inj (List.cons.inj hlines).2).2
      -- the line is behind the body, or in it, where there are no tests
      rcases List.append_eq_append_iff.1 hrest with ⟨more, -, hmore⟩ | ⟨more, hmore, hback⟩
      · cases more with
        | nil =>
          obtain ⟨rfl, -⟩ := List.cons.inj hmore
          exact absurd hline (harmless_closeLine depth).test
        | cons other more => exact ih (List.cons.inj hmore).2
      · cases more with
        | nil =>
          obtain ⟨rfl, -⟩ := List.cons.inj hback
          exact absurd hline (harmless_closeLine depth).test
        | cons other more =>
          obtain ⟨rfl, -⟩ := List.cons.inj hback
          exact absurd hline (hinside.test line (by simp [hmore]))

/-- At most one line of the body keeps an outcome. -/
theorem IsBody.countP_keepsResult {depth : Nat} {body : List (List Char)} (h : IsBody depth body) :
    body.countP KeepsResult ≤ 1 := by
  rcases List.eq_nil_or_concat body with rfl | ⟨front, last, rfl⟩
  · simp
  · have hfront : front.countP (fun line => decide (KeepsResult line)) = 0 := by
      rw [List.countP_eq_zero]
      intro line hline
      simpa using h.keeps line (by simpa using hline)
    rw [List.concat_eq_append, List.countP_append, hfront, Nat.zero_add]
    exact List.countP_le_length

/-- Lines that are put together in this way have outcomes and entries where they belong. -/
theorem GuardedLines.guardedText (h : GuardedLines lines) : GuardedText lines where
  keeps before line after hlines hline := by
    obtain ⟨front, depth, first, second, behind, hblock, hbefore, hbody⟩ :=
      h.inside hlines (.inl hline)
    -- what keeps an outcome is the last line of the body
    have hsecond : second = [] := by
      by_contra hne
      apply hbody.keeps line _ hline
      rw [List.dropLast_append_of_ne_nil (by simp), List.dropLast_cons_of_ne_nil hne]
      simp
    exact ⟨front, depth, first, behind, hsecond ▸ hblock, hbefore⟩
  once front depth body behind hblock := by
    obtain ⟨other, found, rest, htest, hafter, hbody⟩ :=
      h.body_of_test hblock.lines_eq (testsSuccess_testLine depth)
    have hdepth : depth = other := by
      have hlength := congrArg List.length htest
      simp [testLine, Layout.margin] at hlength
      omega
    subst hdepth
    have hclose := not_deeper_closeLine depth
    obtain ⟨hcut, -⟩ :=
      cut_unique hblock.deeper hbody.deeper hclose hclose (List.cons.inj hafter).2
    exact hcut ▸ hbody.countP_keepsResult
  entries before line after hlines hline := by
    obtain ⟨front, depth, first, second, behind, hblock, hbefore, -⟩ :=
      h.inside hlines (.inr hline)
    exact ⟨front, depth, first, second, behind, hblock, hbefore⟩

/-- Lines with guarded outcomes can be put together. -/
theorem GuardedLines.append {more : List (List Char)} (h : GuardedLines lines)
    (hmore : GuardedLines more) : GuardedLines (lines ++ more) := by
  induction h with
  | nil => exact hmore
  | line hharmless _ ih => exact .line hharmless ih
  | block hinside _ ih =>
    have hblock := GuardedLines.block hinside ih
    simpa using hblock

end

/-! ## Texts by their first word -/

/-- The text starts with a word, which may be empty, and a character that is in no word. It
does not start with a space. -/
structure FirstWord (word : List Char) (next : Char) (text : List Char) : Prop where
  letters : word.all isIdentifierChar = true
  ends : isIdentifierChar next = false
  visible : word = [] → next ≠ ' '
  starts : ∃ rest, text = word ++ next :: rest

namespace FirstWord

variable {word word' text : List Char} {next next' : Char}

/-- A text has one first word. -/
theorem unique (h : FirstWord word next text) (h' : FirstWord word' next' text) :
    word = word' ∧ next = next' := by
  obtain ⟨rest, htext⟩ := h.starts
  obtain ⟨rest', htext'⟩ := h'.starts
  have hword := List.all_eq_true.1 h.letters
  have hword' := List.all_eq_true.1 h'.letters
  exact cut_unique hword hword' (by simp [h.ends]) (by simp [h'.ends]) (htext ▸ htext')

/-- What is put behind the character that ends the first word does not change the word. -/
theorem extend {longer : List Char} (h : FirstWord word next text) (hstart : text <+: longer) :
    FirstWord word next longer := by
  obtain ⟨rest, rfl⟩ := h.starts
  obtain ⟨more, rfl⟩ := hstart
  exact ⟨h.letters, h.ends, h.visible, rest ++ more, by simp⟩

theorem append {first second : String} (h : FirstWord word next first.toList) :
    FirstWord word next (first ++ second).toList :=
  h.extend (by rw [String.toList_append]; exact List.prefix_append _ _)

theorem trimEnd_start (text : List Char) : trimEnd text <+: text := by
  obtain ⟨tail, -, htext⟩ := exists_blanks text
  exact ⟨tail, htext.symm⟩

/-- There are no spaces in front of the text. -/
theorem content_trimEnd (h : FirstWord word next text) : content (trimEnd text) = trimEnd text := by
  obtain ⟨rest, hrest⟩ := trimEnd_start text
  cases hkept : trimEnd text with
  | nil => rfl
  | cons c kept =>
    have hc : c ≠ ' ' := by
      rintro rfl
      obtain ⟨more, hmore⟩ := h.starts
      rw [← hrest, hkept] at hmore
      cases word with
      | nil => exact h.visible rfl (List.cons.inj hmore).1.symm
      | cons d word =>
        have hd := List.all_eq_true.1 h.letters d List.mem_cons_self
        rw [← (List.cons.inj hmore).1] at hd
        revert hd
        decide
    simp [content, hc]

/-- A line keeps an outcome only if its first word is `result`. -/
theorem not_keepsResult (h : FirstWord word next text)
    (hne : word ≠ "result".toList ∨ next ≠ ' ') : ¬ KeepsResult (trimEnd text) := by
  intro hkeeps
  rw [KeepsResult, h.content_trimEnd] at hkeeps
  have hresult : FirstWord "result".toList ' ' "result = ".toList :=
    ⟨by decide +kernel, by decide, by decide, ['=', ' '], by decide⟩
  have hsame := h.unique ((hresult.extend hkeeps).extend (trimEnd_start text))
  exact hne.elim (fun hword => hword hsame.1) fun hnext => hnext hsame.2

/-- A line tests for success only if its first word is `if`. -/
theorem not_testsSuccess (h : FirstWord word next text)
    (hne : word ≠ "if".toList ∨ next ≠ ' ') : ¬ TestsSuccess (trimEnd text) := by
  intro htests
  rw [TestsSuccess, h.content_trimEnd] at htests
  have hif : FirstWord "if".toList ' ' "if (XR_SUCCEEDED(result))".toList :=
    ⟨by decide +kernel, by decide, by decide, "(XR_SUCCEEDED(result))".toList, by decide⟩
  have hsame := h.unique ((htests ▸ hif).extend (trimEnd_start text))
  exact hne.elim (fun hword => hword hsame.1) fun hnext => hnext hsame.2

/-- A line assigns an entry only if a bracket ends its first word. -/
theorem not_assignsEntry (h : FirstWord word next text) (hne : next ≠ '[') :
    ¬ AssignsEntry (trimEnd text) := by
  intro hentry
  rw [AssignsEntry, h.content_trimEnd, List.head?_eq_some_iff] at hentry
  obtain ⟨rest, hrest⟩ := hentry
  have htrim : FirstWord ((trimEnd text).takeWhile isIdentifierChar) '[' (trimEnd text) := by
    refine ⟨List.all_takeWhile, by decide, fun _ => by decide, rest, ?_⟩
    rw [← hrest, List.takeWhile_append_dropWhile]
  exact hne (h.unique (htrim.extend (trimEnd_start text))).2

end FirstWord

/-! ## Layouts -/

/-- The text of a line outside of the blocks for success. -/
def HarmlessText (text : String) : Prop := Harmless (trimEnd text.toList)

instance (text : String) : Decidable (HarmlessText text) :=
  inferInstanceAs (Decidable (Harmless (trimEnd text.toList)))

/-- Every line that starts with the text is harmless, because of its first word. -/
def HarmlessStart (text : String) : Prop :=
  ∃ word next, FirstWord word next text.toList ∧
    (next = ' ' → word ≠ "result".toList ∧ word ≠ "if".toList) ∧ next ≠ '['

namespace HarmlessStart

/-- The start of a text decides that its line is harmless. -/
theorem append {first : String} (h : HarmlessStart first) (second : String) :
    HarmlessStart (first ++ second) := by
  obtain ⟨word, next, hfirst, hnext⟩ := h
  exact ⟨word, next, hfirst.append, hnext⟩

theorem harmlessText {text : String} (h : HarmlessStart text) : HarmlessText text := by
  obtain ⟨word, next, hfirst, hword, hnext⟩ := h
  refine ⟨hfirst.not_keepsResult ?_, hfirst.not_assignsEntry hnext,
    hfirst.not_testsSuccess ?_⟩
  · exact (em (next = ' ')).imp (fun hspace => (hword hspace).1) id
  · exact (em (next = ' ')).imp (fun hspace => (hword hspace).2) id

/-- A test for texts that are known. -/
def check (text : String) : Bool :=
  let word := text.toList.takeWhile isIdentifierChar
  match text.toList.dropWhile isIdentifierChar with
  | [] => false
  | next :: _ => next ≠ '[' ∧
    (next = ' ' → word ≠ [] ∧ word ≠ "result".toList ∧ word ≠ "if".toList)

theorem of_check {text : String} (h : check text = true) : HarmlessStart text := by
  unfold check at h
  split at h
  · cases h
  · rename_i next rest hrest
    obtain ⟨hnext, hword⟩ := of_decide_eq_true h
    have hends : isIdentifierChar next = false := by
      have hhead := List.head?_dropWhile_not isIdentifierChar text.toList
      rw [hrest] at hhead
      simpa using hhead
    refine ⟨_, next, ⟨List.all_takeWhile, hends, ?_, rest, ?_⟩, fun hspace => (hword hspace).2,
      hnext⟩
    · exact fun hnil hspace => (hword hspace).1 hnil
    · rw [← hrest, List.takeWhile_append_dropWhile]

end HarmlessStart

namespace Layout

/-- A line is empty, or has the text behind a margin. -/
theorem lineAt_eq (depth : Nat) (text : String) :
    lineAt depth text = [] ∧ trimEnd text.toList = [] ∨
      lineAt depth text = margin depth ++ trimEnd text.toList := by
  unfold lineAt
  split
  · rename_i hnil
    exact .inl ⟨rfl, hnil⟩
  · exact .inr rfl

/-- At every depth a harmless text makes a harmless line. -/
theorem harmless_lineAt {text : String} (h : HarmlessText text) (depth : Nat) :
    Harmless (lineAt depth text) := by
  rcases lineAt_eq depth text with ⟨hline, hnil⟩ | hline
  · rw [hline, ← hnil]
    exact h
  · rw [hline]
    exact harmless_margin.2 h

/-- A layout whose lines are put together from harmless lines and blocks for success. -/
def Guarded (layout : Layout) : Prop := ∀ depth, GuardedLines (layout.lines depth)

namespace Guarded

theorem blank : Guarded .blank := fun _ => .line (by decide +kernel) .nil

theorem line {text : String} (h : HarmlessText text) : Guarded (.line text) :=
  fun depth => .line (harmless_lineAt h depth) .nil

theorem append {above below : Layout} (habove : Guarded above) (hbelow : Guarded below) :
    Guarded (above ++ below) := fun depth => (habove depth).append (hbelow depth)

/-- Guarded layouts one below the other are guarded. -/
theorem stack {α : Type} {items : List α} {layout : α → Layout}
    (h : ∀ item ∈ items, Guarded (layout item)) : Guarded (.stack (items.map layout)) := by
  induction items with
  | nil => exact fun _ => .nil
  | cons item items ih =>
    have hrest := ih fun other hother => h other (List.mem_cons_of_mem item hother)
    exact (h item List.mem_cons_self).append hrest

/-- A body in braces is as guarded as it is alone. -/
theorem braced {header close : String} {body : Layout} (hheader : HarmlessText header)
    (hclose : HarmlessText close) (hbody : Guarded body) : Guarded (.braced header close body) := by
  have hopen : HarmlessText "\x7b" := by decide +kernel
  have hindented : Guarded (.indented body) := fun depth => hbody (depth + 1)
  exact (((line hheader).append (line hopen)).append hindented).append (line hclose)

theorem block {header : String} {body : Layout} (hheader : HarmlessText header)
    (hbody : Guarded body) : Guarded (.block header body) :=
  braced hheader (by decide +kernel) hbody

theorem declaration {header : String} {body : Layout} (hheader : HarmlessText header)
    (hbody : Guarded body) : Guarded (.declaration header body) :=
  braced hheader (by decide +kernel) hbody

/-- A block for success: there is no other test in it, and only its last line may keep an
outcome. -/
theorem success {α : Type} {items : List α} {text : α → String}
    (htest : ∀ item ∈ items, ¬ TestsSuccess (trimEnd (text item).toList))
    (hkeeps : ∀ item ∈ items.dropLast, ¬ KeepsResult (trimEnd (text item).toList)) :
    Guarded (.block "if (XR_SUCCEEDED(result))"
      (.stack (items.map fun item => .line (text item)))) := by
  intro depth
  -- each item of the block is one line, one level deeper
  have hstack : ∀ items : List α,
      (Layout.stack (items.map fun item => .line (text item))).lines (depth + 1) =
        items.map fun item => lineAt (depth + 1) (text item) := by
    intro items
    induction items with
    | nil => rfl
    | cons item items ih => exact congrArg (lineAt (depth + 1) (text item) :: ·) ih
  have hlines : (Layout.block "if (XR_SUCCEEDED(result))"
      (.stack (items.map fun item => .line (text item)))).lines depth =
        testLine depth :: openLine depth ::
          ((items.map fun item => lineAt (depth + 1) (text item)) ++ closeLine depth :: []) := by
    rw [← hstack]
    rfl
  rw [hlines]
  -- the lines of the body are deeper, test nothing, and keep no outcome but in the end
  refine .block ⟨?_, ?_, ?_⟩ .nil
  · intro line hline
    obtain ⟨item, -, rfl⟩ := List.mem_map.1 hline
    rcases lineAt_eq (depth + 1) (text item) with ⟨hline, -⟩ | hline
    · exact .inl hline
    · rw [hline]
      exact .inr (List.prefix_append _ _)
  · intro line hline
    obtain ⟨item, hitem, rfl⟩ := List.mem_map.1 hline
    rcases lineAt_eq (depth + 1) (text item) with ⟨hline, hnil⟩ | hline
    · rw [hline, ← hnil]
      exact htest item hitem
    · rw [hline, testsSuccess_margin]
      exact htest item hitem
  · intro line hline
    rw [← List.map_dropLast] at hline
    obtain ⟨item, hitem, rfl⟩ := List.mem_map.1 hline
    rcases lineAt_eq (depth + 1) (text item) with ⟨hline, hnil⟩ | hline
    · rw [hline, ← hnil]
      exact hkeeps item hitem
    · rw [hline, keepsResult_margin]
      exact hkeeps item hitem

end Guarded

/-- Lines without line breaks in them are read back. -/
theorem linesOf_unlines_of_unbroken {lines : List (List Char)} (h : ∀ line ∈ lines, '\n' ∉ line) :
    linesOf (unlines lines) = lines ++ [[]] := by
  induction lines with
  | nil => rfl
  | cons line lines ih =>
    obtain ⟨hline, hlines⟩ := List.forall_mem_cons.1 h
    rw [Lines.unlines_cons, linesOf, List.splitOn_append_cons_self_of_not_mem hline]
    exact congrArg (line :: ·) (ih hlines)

/-- Lines that can be written one below the other are read back. -/
theorem linesOf_unlines {depth last : Nat} {lines : List (List Char)} (h : Lines depth lines last) :
    linesOf (unlines lines) = lines ++ [[]] := by
  apply linesOf_unlines_of_unbroken
  induction h with
  | nil => exact fun line hline => absurd hline List.not_mem_nil
  | cons hunbroken _ _ _ ih => exact List.forall_mem_cons.2 ⟨hunbroken, ih⟩

/-- A layout of harmless lines and blocks for success is written as a guarded text. -/
theorem Guarded.guardedText {layout : Layout} (h : layout.Guarded) (hfits : layout.Fits) :
    GuardedText (linesOf layout.render.toList) := by
  rw [render, String.toList_ofList, linesOf_unlines (hfits 0)]
  have hempty : GuardedLines [[]] := .line (by decide +kernel) .nil
  exact ((h 0).append hempty).guardedText

end Layout
end XrManifest.Cpp
