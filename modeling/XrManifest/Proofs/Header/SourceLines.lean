import XrManifest.Proofs.Header.Literals
import XrManifest.Proofs.Header.Nesting
import XrManifest.Proofs.Manifest.RoundTrip

/-!
# The lines of a header for other readers

A header ends its lines in line feeds. A reader that ends lines in a carriage return too, or a
function that copies a literal up to a NUL, sees something else where a text of the manifest has
these characters, since literals do not escape them. The main statement is `generate_strays`.
-/

namespace XrManifest.Cpp

/-! ## Line ends -/

/-- A text with a line feed in the place of every line end: a carriage return with a line feed
behind it and, where `lone` is set, a carriage return on its own. -/
def unifyBreaks (lone : Bool) : List Char → List Char
  | [] => []
  | '\r' :: '\n' :: rest => '\n' :: unifyBreaks lone rest
  | c :: rest => (if lone ∧ c = '\r' then '\n' else c) :: unifyBreaks lone rest

/-- The lines of a text for a reader of all these line ends. -/
def sourceLines (lone : Bool) (text : String) : List (List Char) :=
  linesOf (unifyBreaks lone text.toList)

/-- What a function of C is given of a text: it ends in front of the first NUL. -/
def terminated (text : List Char) : List Char := text.takeWhile (· ≠ '\x00')

/-- A character that starts no longer line end is looked at on its own. -/
theorem unifyBreaks_cons {lone : Bool} {c : Char} {rest : List Char}
    (h : ∀ more, c = '\r' → rest ≠ '\n' :: more) :
    unifyBreaks lone (c :: rest) =
      (if lone ∧ c = '\r' then '\n' else c) :: unifyBreaks lone rest := by
  rw [unifyBreaks]
  intro more hc hrest
  exact h more hc hrest

/-- A line that does not end in a carriage return is kept where lone ones do not count. -/
theorem unifyBreaks_line {line : List Char} (hunbroken : '\n' ∉ line)
    (hend : ∀ front, line ≠ front ++ ['\r']) (rest : List Char) :
    unifyBreaks false (line ++ '\n' :: rest) = line ++ '\n' :: unifyBreaks false rest := by
  induction line with
  | nil => exact unifyBreaks_cons fun _ hc => absurd hc (by decide)
  | cons c line ih =>
    -- no line feed is behind a carriage return, so no break is changed
    have hne : ∀ more, c = '\r' → line ++ '\n' :: rest ≠ '\n' :: more := by
      rintro more rfl hmore
      cases line with
      | nil => exact hend [] rfl
      | cons d line =>
        obtain ⟨rfl, -⟩ := List.cons.inj hmore
        exact hunbroken (by simp)
    rw [List.cons_append, unifyBreaks_cons hne, if_neg (by simp),
      ih (fun hmem => hunbroken (List.mem_cons_of_mem c hmem))]
    · rfl
    · rintro front rfl
      exact hend (c :: front) rfl

/-- Lines that are laid out end in the same places for a reader of both line ends. -/
theorem Lines.unifyBreaks_unlines {depth last : Nat} {lines : List (List Char)}
    (h : Lines depth lines last) :
    unifyBreaks false (Layout.unlines lines) = Layout.unlines lines := by
  induction h with
  | nil => rfl
  | @cons depth _ _ line _ hunbroken hlaidOut _ _ ih =>
    rw [Lines.unlines_cons, unifyBreaks_line hunbroken ?_, ih]
    rintro front rfl
    rcases hlaidOut with hempty | ⟨-, start, last, hlast, hends⟩
    · simp at hempty
    · -- a line does not end in white space, and a carriage return is white space
      have hsame : last = '\r' := by simpa using (List.append_inj' hends rfl).2.symm
      rw [hsame] at hlast
      exact absurd hlast (by decide)

/-- Without carriage returns the lines are as they were. -/
theorem unifyBreaks_of_not_mem {lone : Bool} {text : List Char} (h : '\r' ∉ text) :
    unifyBreaks lone text = text := by
  induction text with
  | nil => rfl
  | cons c text ih =>
    have hc : c ≠ '\r' := fun heq => h (heq ▸ List.mem_cons_self)
    rw [unifyBreaks_cons fun _ heq => absurd heq hc, if_neg fun hlone => hc hlone.2,
      ih fun hmem => h (List.mem_cons_of_mem c hmem)]

theorem not_mem_unifyBreaks (text : List Char) : '\r' ∉ unifyBreaks true text := by
  fun_induction unifyBreaks true text with
  | case1 => exact List.not_mem_nil
  | case2 rest ih => simpa using ih
  | case3 c rest _ ih =>
    rw [List.mem_cons, not_or]
    refine ⟨?_, ih⟩
    split
    · decide
    · rename_i hc
      simpa [eq_comm] using hc

/-- Different texts differ in some line. -/
theorem linesOf_injective : Function.Injective linesOf :=
  Function.LeftInverse.injective (g := ['\n'].intercalate) fun _ =>
    List.intercalate_splitOn '\n'

/-- A reader of lone carriage returns sees the same lines where there is none. -/
theorem sourceLines_eq_iff {text : String} :
    sourceLines true text = linesOf text.toList ↔ '\r' ∉ text.toList := by
  constructor
  · intro h
    have hsame := linesOf_injective h
    rw [← hsame]
    exact not_mem_unifyBreaks text.toList
  · intro h
    rw [sourceLines, unifyBreaks_of_not_mem h]

/-- A function of C is given the whole text exactly when there is no NUL in it. -/
theorem terminated_eq_iff {text : List Char} : terminated text = text ↔ '\x00' ∉ text := by
  rw [terminated, List.takeWhile_eq_self_iff]
  constructor
  · intro h hmem
    exact absurd (h _ hmem) (by decide)
  · intro h c hc
    have hne : c ≠ '\x00' := fun heq => h (heq ▸ hc)
    simpa using hne

end XrManifest.Cpp

namespace XrManifest

open XrManifest.Cpp XrManifest.Naming

/-! ## Headers -/

/-- The text that a manifest of one action set is written as gives the header of the set. -/
theorem generate_write (style : Style) {set : ActionSet} {plan : Plan} {text : String}
    (hwrite : Manifest.write ⟨[set]⟩ = .ok text) (hplan : Plan.ofActionSet set = .ok plan) :
    Manifest.read text = .ok ⟨[set]⟩ ∧
      ∃ header, Header.ofManifest style ⟨[set]⟩ = .ok header ∧
        generate style text = .ok header.text := by
  have hread := (Manifest.read_write hwrite).2
  obtain ⟨out, hout⟩ := Manifest.exists_header_singleton style hplan
  obtain ⟨header, hheader, rfl⟩ := Manifest.header_eq_ok.1 hout
  exact ⟨hread, header, hheader, generate_eq_ok.2 ⟨_, hread, hout⟩⟩

/-- The carriage returns and the NULs of a header are those of the texts that it quotes, in order.
Lines end in the same places where a carriage return counts in front of a line feed only. They do
for a reader of lone carriage returns exactly where no quoted text has one, and literals are copied
as a whole exactly where no quoted text has a NUL. -/
theorem generate_strays {style : Style} {text out : String} (h : generate style text = .ok out) :
    ∃ manifest header, Manifest.read text = .ok manifest ∧
      Header.ofManifest style manifest = .ok header ∧ header.text = out ∧
      strays out.toList = straysOf manifest.quoted ∧
      sourceLines false out = linesOf out.toList ∧
      (sourceLines true out = linesOf out.toList ↔
        ∀ quoted ∈ manifest.quoted, '\r' ∉ quoted.toList) ∧
      ((∀ literal ∈ header.literals, terminated literal.toList = literal.toList) ↔
        ∀ quoted ∈ manifest.quoted, '\x00' ∉ quoted.toList) := by
  obtain ⟨manifest, hread, hwritten⟩ := generate_eq_ok.1 h
  obtain ⟨header, hheader, rfl⟩ := Manifest.header_eq_ok.1 hwritten
  have hstrays := Header.strays_text hheader
  have hquoted := Header.straysOf_literals hheader
  refine ⟨manifest, header, hread, hheader, rfl, hstrays.trans hquoted, ?_, ?_, ?_⟩
  · have hlines := (Header.fits hheader 0).unifyBreaks_unlines
    rw [sourceLines, Header.text, Layout.render, String.toList_ofList, hlines]
  -- a carriage return alone is a break to one reader only
  · have hreturn : '\r' ∈ strayChars := by decide
    rw [sourceLines_eq_iff, ← mem_strays hreturn, hstrays, hquoted, mem_straysOf hreturn]
    simp
  · have hnul : '\x00' ∈ strayChars := by decide
    have hsame : (∃ literal ∈ header.literals, '\x00' ∈ literal.toList) ↔
        ∃ quoted ∈ manifest.quoted, '\x00' ∈ quoted.toList := by
      rw [← mem_straysOf hnul, hquoted, mem_straysOf hnul]
    simp only [terminated_eq_iff]
    simpa using not_congr hsame

/-- An action set whose texts have both characters. -/
theorem generate_strays_ofNames :
    ∃ text out : String, generate .snake text = .ok out ∧ strays out.toList = ['\r', '\x00', '\r'] ∧
      sourceLines false out = linesOf out.toList ∧ sourceLines true out ≠ linesOf out.toList := by
  let set : ActionSet := ⟨"play", "Play\r", 0, [⟨"gr\x00ab", "Grab\r", .float, false⟩], []⟩
  obtain ⟨text, htext⟩ : ∃ text, Manifest.write ⟨[set]⟩ = .ok text := ⟨_, rfl⟩
  obtain ⟨plan, hplan⟩ : ∃ plan, Plan.ofActionSet set = .ok plan := ⟨_, rfl⟩
  obtain ⟨hset, header, -, hgenerate⟩ := generate_write .snake htext hplan
  obtain ⟨manifest, -, hread, -, -, hstrays, hlines, hlone, -⟩ := generate_strays hgenerate
  obtain rfl : ⟨[set]⟩ = manifest := Except.ok.inj (hset.symm.trans hread)
  -- the name of the first set comes in front of those of its actions
  have hquoted : Manifest.quoted ⟨[set]⟩ = ["play", "Play\r", "gr\x00ab", "Grab\r"] := by
    simp [Manifest.quoted, ActionSet.quoted, ActionSet.distinctPaths, ActionSet.allPaths,
      firstOccurrences, set]
  rw [hquoted] at hstrays hlone
  refine ⟨text, header.text, hgenerate, hstrays.trans (by decide), hlines, ?_⟩
  intro hsame
  exact absurd (hlone.1 hsame) (by decide)

/-- Where a text that is shown to users has one of the characters, so has the header. -/
theorem not_generate_withoutStrays :
    (¬ ∀ (style : Style) (text out : String), generate style text = .ok out → '\r' ∉ out.toList) ∧
      ¬ ∀ (style : Style) (text out : String), generate style text = .ok out →
        '\x00' ∉ out.toList := by
  have hstray : ∀ c ∈ strayChars, ¬ ∀ (style : Style) (text out : String),
      generate style text = .ok out → c ∉ out.toList := by
    intro c hc hclaim
    -- the stray character ends the name of a set
    let set : ActionSet := ⟨"play", "Play" ++ String.singleton c, 0, [], []⟩
    obtain ⟨text, htext⟩ : ∃ text, Manifest.write ⟨[set]⟩ = .ok text := ⟨_, rfl⟩
    obtain ⟨plan, hplan⟩ : ∃ plan, Plan.ofActionSet set = .ok plan := ⟨_, rfl⟩
    obtain ⟨-, header, hheader, hgenerate⟩ := generate_write .pascal htext hplan
    have hquoted : ∃ quoted ∈ Manifest.quoted ⟨[set]⟩, c ∈ quoted.toList :=
      ⟨set.localizedName, by simp [Manifest.quoted, ActionSet.quoted], by simp [set]⟩
    apply hclaim .pascal text header.text hgenerate
    rw [← mem_strays hc, Header.strays_text hheader, Header.straysOf_literals hheader]
    exact (mem_straysOf hc).2 hquoted
  exact ⟨hstray _ (by decide), hstray _ (by decide)⟩

end XrManifest
