import Mathlib.Tactic.MkIffOfInductiveProp
import Mathlib.Tactic.Tauto
import XrManifest.CommandLine.Arguments
import XrManifest.Proofs.Outcomes

/-!
# Accepted arguments

Which arguments ask for a run, and for which one. The arguments are spelled out as choices, in
any order: one manifest, at most one value for each option, and each flag at most once. The main
statement is `read_eq_run`.
-/

namespace XrManifest.CommandLine

open XrManifest.Naming

/-! ## Choices -/

/-- What an argument can choose for a run. -/
inductive Choice where
  | manifest (path : String)
  | value (option : ValueOption) (text : String)
  | stdout
  | verbose
deriving DecidableEq

/-- The choices of letters that stand together behind one hyphen. -/
inductive SpellsLetters : List Char → List Choice → Prop where
  | nil : SpellsLetters [] []
  | verbose {letters choices} : SpellsLetters letters choices →
      SpellsLetters ('v' :: letters) (.verbose :: choices)
  | joined {text} : text ≠ [] → text.head? ≠ some '=' →
      SpellsLetters ('o' :: text) [.value .out (String.ofList text)]
  | assigned {text} : SpellsLetters ('o' :: '=' :: text) [.value .out (String.ofList text)]

/-- The choices of letters behind which the path of the header is still to come. -/
inductive SpellsOpenLetters : List Char → List Choice → Prop where
  | out : SpellsOpenLetters ['o'] []
  | verbose {letters choices} : SpellsOpenLetters letters choices →
      SpellsOpenLetters ('v' :: letters) (.verbose :: choices)

/-- The choices of one argument. -/
inductive SpellsArgument : String → List Choice → Prop where
  | manifest {path} : isOption path.toList = false → SpellsArgument path [.manifest path]
  | assigned {option text} : SpellsArgument (option.name ++ "=" ++ text) [.value option text]
  | stdout : SpellsArgument "--stdout" [.stdout]
  | verbose : SpellsArgument "--verbose" [.verbose]
  | letters {letters choices} : letters ≠ [] → SpellsLetters letters choices →
      SpellsArgument (String.ofList ('-' :: letters)) choices

/-- The choices of an argument behind which the value of an option is still to come. -/
inductive SpellsOpenArgument : String → List Choice → ValueOption → Prop where
  | option {option} : SpellsOpenArgument option.name [] option
  | letters {letters choices} : SpellsOpenLetters letters choices →
      SpellsOpenArgument (String.ofList ('-' :: letters)) choices .out

/-- The choices of arguments, from left to right. Behind two hyphens there are manifests only. -/
inductive Spells : List String → List Choice → Prop where
  | nil : Spells [] []
  | manifests {paths} : Spells ("--" :: paths) (paths.map .manifest)
  | closed {argument choices rest more} : SpellsArgument argument choices → Spells rest more →
      Spells (argument :: rest) (choices ++ more)
  | value {argument choices option text rest more} : SpellsOpenArgument argument choices option →
      isOption text.toList = false → Spells rest more →
      Spells (argument :: text :: rest) (choices ++ .value option text :: more)

def manifestsOf : List Choice → List String
  | [] => []
  | .manifest path :: choices => path :: manifestsOf choices
  | _ :: choices => manifestsOf choices

/-- The values that are chosen for an option. -/
def valuesOf (option : ValueOption) : List Choice → List String
  | [] => []
  | .value chosen text :: choices =>
    if chosen = option then text :: valuesOf option choices else valuesOf option choices
  | _ :: choices => valuesOf option choices

/-- The choices for a run: one manifest, at most one file for the header, at most one style, and
each flag at most once. A header that is printed has no file. -/
structure Invocation.Chosen (invocation : Invocation) (choices : List Choice) : Prop where
  manifest : manifestsOf choices = [invocation.manifest]
  named : invocation.manifest ≠ ""
  out : valuesOf .out choices = invocation.out.toList
  filed : invocation.out ≠ some ""
  style : (valuesOf .naming choices = [] ∧ invocation.style = .standard) ∨
    ∃ text, valuesOf .naming choices = [text] ∧ Style.ofName? text = some invocation.style
  stdout : choices.count .stdout = invocation.toStdout.toNat
  verbose : choices.count .verbose = invocation.verbose.toNat
  printed : invocation.toStdout = true → invocation.out = none

/-- Arguments that ask for a run. -/
def Invocation.AskedBy (invocation : Invocation) (arguments : List String) : Prop :=
  ∃ choices, Spells arguments choices ∧ invocation.Chosen choices

/-! ## Taking choices -/

def Draft.take (draft : Draft) : Choice → Except UsageError Draft
  | .manifest path => draft.setManifest path
  | .value option text => draft.setValue option text
  | .stdout =>
    if draft.toStdout then .error (.repeated Flag.stdout.name)
    else .ok { draft with toStdout := true }
  | .verbose =>
    if draft.verbose then .error (.repeated Flag.verbose.name)
    else .ok { draft with verbose := true }

def Draft.takeAll (draft : Draft) (choices : List Choice) : Except UsageError Draft :=
  choices.foldlM Draft.take draft

section
variable {draft final : Draft} {letters : List Char} {argument : String} {option : ValueOption}

theorem Draft.setFlag_stdout : draft.setFlag .stdout = (draft.take .stdout).map .next := by
  unfold setFlag take
  cases draft.toStdout <;> rfl

theorem Draft.setFlag_verbose : draft.setFlag .verbose = (draft.take .verbose).map .next := by
  unfold setFlag take
  cases draft.verbose <;> rfl

theorem Draft.takeAll_cons {choice : Choice} {choices : List Choice} :
    draft.takeAll (choice :: choices) = .ok final ↔
      ∃ next, draft.take choice = .ok next ∧ next.takeAll choices = .ok final := by
  rw [takeAll, List.foldlM_cons, bind_eq_ok]
  rfl

/-- Choices can be taken in two turns. -/
theorem Draft.takeAll_append {first second : List Choice} :
    draft.takeAll (first ++ second) = .ok final ↔
      ∃ next, draft.takeAll first = .ok next ∧ next.takeAll second = .ok final := by
  rw [takeAll, List.foldlM_append, bind_eq_ok]
  rfl

theorem Draft.takeAll_singleton {choice : Choice} :
    draft.takeAll [choice] = draft.take choice := by
  rw [takeAll, List.foldlM_cons]
  cases draft.take choice <;> rfl

/-! ## Reading letters -/

theorem readShort_verbose :
    readShort draft ('v' :: letters) = draft.take .verbose >>= fun next =>
      readShort next letters := by
  rw [readShort]
  · show draft.setFlag .verbose >>= _ = _
    rw [Draft.setFlag_verbose]
    cases draft.take .verbose <;> rfl
  all_goals simp

/-- What stands behind the letter of an option with a value is its value, unless an equals sign
comes first. -/
theorem readShort_joined {text : List Char} (hne : text ≠ []) (hmark : text.head? ≠ some '=') :
    readShort draft ('o' :: text) =
      (draft.setValue .out (String.ofList text)).map .next := by
  rw [readShort]
  · exact hne
  · rintro value rfl
    exact hmark rfl

/-- What a progress says was spelled out: choices, to which a value may belong that is still to
come. An answer is not a run. -/
inductive Progress.Spelled (draft : Draft) (closed : List Choice → Prop)
    (opened : List Choice → ValueOption → Prop) : Progress → Prop where
  | next {choices final} : closed choices → draft.takeAll choices = .ok final →
      Spelled draft closed opened (.next final)
  | value {choices final option} : opened choices option → draft.takeAll choices = .ok final →
      Spelled draft closed opened (.value final option)
  | help : Spelled draft closed opened (.answer .help)
  | version : Spelled draft closed opened (.answer .version)

/-- Whatever letters are read as, they spell it. -/
theorem spelled_of_readShort {progress : Progress} (h : readShort draft letters = .ok progress) :
    progress.Spelled draft (SpellsLetters letters) fun choices option =>
      SpellsOpenLetters letters choices ∧ option = .out := by
  -- the cases are the ways in which letters are read
  fun_induction readShort draft letters with
  | case1 draft =>
    rcases Except.ok.inj h with rfl
    exact .next .nil rfl
  | case2 draft =>
    rcases Except.ok.inj h with rfl
    exact .value ⟨.out, rfl⟩ rfl
  | case3 draft text =>
    obtain ⟨next, hnext, rfl⟩ := map_eq_ok.1 h
    exact .next .assigned (Draft.takeAll_singleton.trans hnext)
  | case4 draft text hne hmark =>
    obtain ⟨next, hnext, rfl⟩ := map_eq_ok.1 h
    have hhead : text.head? ≠ some '=' := by
      cases text with
      | nil => exact fun hnone => (nomatch hnone)
      | cons c rest =>
        rintro ⟨⟩
        exact hmark rest rfl
    exact .next (.joined hne hhead) (Draft.takeAll_singleton.trans hnext)
  | case5 => cases h
  | case6 draft letter rest _ _ _ flag hflag ih =>
    obtain ⟨step, hstep, hrest⟩ := bind_eq_ok.1 h
    unfold shortFlag? at hflag
    split at hflag
    · -- verbose: the other letters follow
      rcases Option.some.inj hflag with rfl
      rw [Draft.setFlag_verbose] at hstep
      obtain ⟨next, hnext, rfl⟩ := map_eq_ok.1 hstep
      cases ih next hrest with
      | next hspells htake =>
        exact .next (.verbose hspells) (Draft.takeAll_cons.2 ⟨next, hnext, htake⟩)
      | value hspells htake =>
        exact .value ⟨.verbose hspells.1, hspells.2⟩ (Draft.takeAll_cons.2 ⟨next, hnext, htake⟩)
      | help => exact .help
      | version => exact .version
    · rcases Option.some.inj hflag with rfl
      rcases Except.ok.inj hstep with rfl
      rcases Except.ok.inj hrest with rfl
      exact .help
    · rcases Option.some.inj hflag with rfl
      rcases Except.ok.inj hstep with rfl
      rcases Except.ok.inj hrest with rfl
      exact .version
    · cases hflag

/-- Letters that spell choices are read by taking these. -/
theorem readShort_of_spells {choices : List Choice} (h : SpellsLetters letters choices)
    (htake : draft.takeAll choices = .ok final) :
    readShort draft letters = .ok (.next final) := by
  -- by induction on the spelling, which follows the letters
  induction h generalizing draft with
  | nil =>
    rcases Except.ok.inj htake with rfl
    rfl
  | verbose _ ih =>
    obtain ⟨next, hnext, hrest⟩ := Draft.takeAll_cons.1 htake
    rw [readShort_verbose, hnext]
    exact ih hrest
  | joined hne hmark =>
    rw [Draft.takeAll_singleton] at htake
    rw [readShort_joined hne hmark]
    exact map_eq_ok.2 ⟨final, htake, rfl⟩
  | assigned =>
    rw [Draft.takeAll_singleton] at htake
    rw [readShort]
    exact map_eq_ok.2 ⟨final, htake, rfl⟩

theorem readShort_of_spellsOpen {choices : List Choice} (h : SpellsOpenLetters letters choices)
    (htake : draft.takeAll choices = .ok final) :
    readShort draft letters = .ok (.value final .out) := by
  induction h generalizing draft with
  | out =>
    rcases Except.ok.inj htake with rfl
    rfl
  | verbose _ ih =>
    obtain ⟨next, hnext, hrest⟩ := Draft.takeAll_cons.1 htake
    rw [readShort_verbose, hnext]
    exact ih hrest

/-! ## Reading arguments -/

/-- The name of an option and its value are found again behind the equals sign. -/
theorem readArgument_assigned {text : String} :
    readArgument draft (option.name ++ "=" ++ text) = (draft.setValue option text).map .next := by
  cases option <;> simp [ValueOption.name, readArgument, readLong]

/-- The name of an option leaves its value to the next argument. -/
theorem readArgument_option :
    readArgument draft option.name = .ok (.value draft option) := by
  cases option <;> rfl

/-- What is no option is a manifest. -/
theorem readArgument_manifest (h : isOption argument.toList = false) :
    readArgument draft argument = (draft.setManifest argument).map .next := by
  unfold readArgument
  split
  · rename_i hlong
    rw [hlong] at h
    cases h
  · rename_i hshort
    rw [hshort] at h
    cases h
  · rfl

/-- Behind one hyphen there are letters. -/
theorem readArgument_letters (hne : letters ≠ []) (hhyphen : letters.head? ≠ some '-') :
    readArgument draft (String.ofList ('-' :: letters)) = readShort draft letters := by
  obtain ⟨letter, rest, rfl⟩ := List.exists_cons_of_ne_nil hne
  unfold readArgument
  rw [String.toList_ofList]
  split
  · rename_i hlong
    cases hlong
    exact absurd rfl hhyphen
  · rename_i hshort
    cases hshort
    rfl
  · rename_i hshort
    exact absurd rfl (hshort letter rest)

/-- No letter is a hyphen, so that letters do not make the name of an option. -/
theorem SpellsLetters.head?_ne {choices : List Choice} (h : SpellsLetters letters choices) :
    letters.head? ≠ some '-' := by
  cases h <;> simp

theorem SpellsOpenLetters.ne {choices : List Choice} (h : SpellsOpenLetters letters choices) :
    letters ≠ [] ∧ letters.head? ≠ some '-' := by
  cases h <;> simp

/-- An argument that spells choices is read by taking these. -/
theorem readArgument_of_spells {choices : List Choice} (h : SpellsArgument argument choices)
    (htake : draft.takeAll choices = .ok final) :
    readArgument draft argument = .ok (.next final) := by
  cases h with
  | manifest hmanifest =>
    rw [Draft.takeAll_singleton] at htake
    rw [readArgument_manifest hmanifest]
    exact map_eq_ok.2 ⟨final, htake, rfl⟩
  | assigned =>
    rw [Draft.takeAll_singleton] at htake
    rw [readArgument_assigned]
    exact map_eq_ok.2 ⟨final, htake, rfl⟩
  | stdout =>
    rw [Draft.takeAll_singleton] at htake
    exact Draft.setFlag_stdout.trans (map_eq_ok.2 ⟨final, htake, rfl⟩)
  | verbose =>
    rw [Draft.takeAll_singleton] at htake
    exact Draft.setFlag_verbose.trans (map_eq_ok.2 ⟨final, htake, rfl⟩)
  | letters hne hspells =>
    rw [readArgument_letters hne hspells.head?_ne]
    exact readShort_of_spells hspells htake

/-- An argument that leaves a value open is read by taking its choices and waiting for the value. -/
theorem readArgument_of_spellsOpen {choices : List Choice}
    (h : SpellsOpenArgument argument choices option) (htake : draft.takeAll choices = .ok final) :
    readArgument draft argument = .ok (.value final option) := by
  cases h with
  | option =>
    rcases Except.ok.inj htake with rfl
    exact readArgument_option
  | letters hspells =>
    rw [readArgument_letters hspells.ne.1 hspells.ne.2]
    exact readShort_of_spellsOpen hspells htake

/-- The text of an option with its value, if it has one. -/
theorem eq_of_toList {name : List Char} {text : String}
    (h : argument.toList = '-' :: '-' :: (name ++ '=' :: text.toList)) :
    argument = String.ofList ('-' :: '-' :: name) ++ "=" ++ text := by
  rw [← String.toList_inj, h]
  simp

/-- Whatever a long option is read as, it spells it. -/
theorem spelled_of_readLong {name : List Char} {value : Option String} {progress : Progress}
    (hargument : argument.toList =
      '-' :: '-' :: (name ++ (value.map fun text => '=' :: text.toList).getD []))
    (h : readLong draft name value = .ok progress) :
    progress.Spelled draft (SpellsArgument argument) (SpellsOpenArgument argument) := by
  -- an option has the name, or else a flag has it
  cases hoption : [ValueOption.out, .naming].find?
      (·.name = String.ofList ('-' :: '-' :: name)) with
  | some option =>
    have hname : option.name = String.ofList ('-' :: '-' :: name) := by
      simpa using List.find?_some hoption
    simp only [readLong, hoption] at h
    cases value with
    | some text =>
      obtain ⟨next, hnext, rfl⟩ := map_eq_ok.1 h
      rw [eq_of_toList hargument, ← hname]
      exact .next .assigned (Draft.takeAll_singleton.trans hnext)
    | none =>
      rcases Except.ok.inj h with rfl
      have hsame : argument = option.name := by
        rw [hname, ← String.toList_inj, hargument]
        simp
      rw [hsame]
      exact .value .option rfl
  | none =>
    cases hflag : [Flag.stdout, .verbose, .help, .version].find?
        (·.name = String.ofList ('-' :: '-' :: name)) with
    | none =>
      simp only [readLong, hoption, hflag] at h
      cases value <;> cases h
    | some flag =>
      have hname : flag.name = String.ofList ('-' :: '-' :: name) := by
        simpa using List.find?_some hflag
      simp only [readLong, hoption, hflag] at h
      cases value with
      | some text => cases h
      | none =>
        have hsame : argument = flag.name := by
          rw [hname, ← String.toList_inj, hargument]
          simp
        rw [hsame]
        cases flag with
        | stdout =>
          obtain ⟨next, hnext, rfl⟩ := map_eq_ok.1 (Draft.setFlag_stdout.symm.trans h)
          exact .next .stdout (Draft.takeAll_singleton.trans hnext)
        | verbose =>
          obtain ⟨next, hnext, rfl⟩ := map_eq_ok.1 (Draft.setFlag_verbose.symm.trans h)
          exact .next .verbose (Draft.takeAll_singleton.trans hnext)
        | help =>
          rcases Except.ok.inj h with rfl
          exact .help
        | version =>
          rcases Except.ok.inj h with rfl
          exact .version

/-- Whatever an argument is read as, it spells it. -/
theorem spelled_of_readArgument {progress : Progress}
    (h : readArgument draft argument = .ok progress) :
    progress.Spelled draft (SpellsArgument argument) (SpellsOpenArgument argument) := by
  unfold readArgument at h
  split at h
  · rename_i long hlong
    refine spelled_of_readLong ?_ h
    -- the name ends at the first equals sign
    have hcut : long.takeWhile (· ≠ '=') ++ long.dropWhile (· ≠ '=') = long :=
      List.takeWhile_append_dropWhile
    rw [hlong]
    cases hdrop : long.dropWhile (· ≠ '=') with
    | nil =>
      rw [hdrop, List.append_nil] at hcut
      simpa using hcut.symm
    | cons c text =>
      have hmark : c = '=' := by
        have hhead := List.head?_dropWhile_not (· ≠ '=') long
        rw [hdrop] at hhead
        simpa using hhead
      rw [hdrop, hmark] at hcut
      simpa using hcut.symm
  · rename_i letter letters hno hshort
    have hsame : argument = String.ofList ('-' :: letter :: letters) := by
      rw [← hshort, String.ofList_toList]
    rw [hsame]
    cases spelled_of_readShort h with
    | next hspells htake => exact .next (.letters (List.cons_ne_nil _ _) hspells) htake
    | value hspells htake =>
      obtain ⟨hopen, rfl⟩ := hspells
      exact .value (.letters hopen) htake
    | help => exact .help
    | version => exact .version
  · rename_i hlong hshort
    obtain ⟨next, hnext, rfl⟩ := map_eq_ok.1 h
    have hmanifest : isOption argument.toList = false := by
      unfold isOption
      split
      · rename_i c rest hoption
        exact absurd hoption (hshort c rest)
      · rfl
    exact .next (.manifest hmanifest) (Draft.takeAll_singleton.trans hnext)

/-! ## Reading all arguments -/

theorem readFrom_closed {next : Draft} {rest : List String}
    (h : readArgument draft argument = .ok (.next next)) :
    readFrom draft (argument :: rest) = readFrom next rest := by
  have hmarked : argument ≠ "--" := by
    rintro rfl
    cases h
  rw [readFrom, if_neg hmarked, h]
  rfl

theorem readFrom_value {next : Draft} {text : String} {rest : List String}
    (h : readArgument draft argument = .ok (.value next option))
    (htext : isOption text.toList = false) :
    readFrom draft (argument :: text :: rest) =
      next.take (.value option text) >>= fun final => readFrom final rest := by
  have hmarked : argument ≠ "--" := by
    rintro rfl
    cases h
  rw [readFrom, if_neg hmarked, h]
  show (if isOption text.toList = true then _ else _) = _
  rw [htext, if_neg Bool.false_ne_true]
  rfl

/-- Behind two hyphens every argument is a manifest. -/
theorem takeAll_manifests (paths : List String) :
    draft.takeAll (paths.map .manifest) = paths.foldlM Draft.setManifest draft := by
  rw [Draft.takeAll, List.foldlM_map]
  rfl

/-- The arguments of a run are spelled out. -/
theorem spells_of_readFrom {invocation : Invocation} :
    ∀ {arguments : List String} {draft : Draft},
      readFrom draft arguments = .ok (.run invocation) →
        ∃ choices final, Spells arguments choices ∧ draft.takeAll choices = .ok final ∧
          final.finish = .ok (.run invocation)
  | [], draft, h => ⟨[], draft, .nil, rfl, h⟩
  | argument :: rest, draft, h => by
    -- behind two hyphens all that is left are manifests
    by_cases hmarked : argument = "--"
    · rw [readFrom, if_pos hmarked] at h
      obtain ⟨final, hfinal, hfinish⟩ := bind_eq_ok.1 h
      rw [hmarked]
      exact ⟨_, final, .manifests, (takeAll_manifests rest).trans hfinal, hfinish⟩
    · rw [readFrom, if_neg hmarked] at h
      obtain ⟨progress, hprogress, hrest⟩ := bind_eq_ok.1 h
      cases spelled_of_readArgument hprogress with
      | next hspells htake =>
        obtain ⟨more, final, hmore, htaken, hfinish⟩ := spells_of_readFrom hrest
        exact ⟨_, final, .closed hspells hmore,
          Draft.takeAll_append.2 ⟨_, htake, htaken⟩, hfinish⟩
      | value hspells htake =>
        cases rest with
        | nil => cases hrest
        | cons text rest =>
          -- the next argument is the value, unless it is an option
          change (if isOption text.toList = true then _ else _) = _ at hrest
          split at hrest
          · cases hrest
          · rename_i htext
            obtain ⟨valued, hvalued, hlast⟩ := bind_eq_ok.1 hrest
            obtain ⟨more, final, hmore, htaken, hfinish⟩ := spells_of_readFrom hlast
            exact ⟨_, final, .value hspells (Bool.eq_false_iff.2 htext) hmore,
              Draft.takeAll_append.2 ⟨_, htake, Draft.takeAll_cons.2 ⟨valued, hvalued, htaken⟩⟩,
              hfinish⟩
      | help => cases hrest
      | version => cases hrest

/-- Arguments that spell the choices of a run are read as this run. -/
theorem readFrom_of_spells {arguments : List String} {choices : List Choice}
    {invocation : Invocation} (h : Spells arguments choices)
    (htake : draft.takeAll choices = .ok final) (hfinish : final.finish = .ok (.run invocation)) :
    readFrom draft arguments = .ok (.run invocation) := by
  -- by induction on the spelling, with any draft so far
  induction h generalizing draft with
  | nil =>
    rcases Except.ok.inj htake with rfl
    exact hfinish
  | manifests =>
    rw [takeAll_manifests] at htake
    rw [readFrom, if_pos rfl, htake]
    exact hfinish
  | closed hspells _ ih =>
    obtain ⟨next, hnext, hrest⟩ := Draft.takeAll_append.1 htake
    rw [readFrom_closed (readArgument_of_spells hspells hnext)]
    exact ih hrest
  | value hspells htext _ ih =>
    obtain ⟨next, hnext, hrest⟩ := Draft.takeAll_append.1 htake
    obtain ⟨valued, hvalued, hlast⟩ := Draft.takeAll_cons.1 hrest
    rw [readFrom_value (readArgument_of_spellsOpen hspells hnext) htext, hvalued]
    exact ih hlast

/-! ## What was chosen -/

/-- There is one manifest, and its path is not empty. -/
theorem Draft.take_manifest {path : String} :
    draft.take (.manifest path) = .ok final ↔
      draft.manifest = none ∧ path ≠ "" ∧ { draft with manifest := some path } = final := by
  unfold take setManifest
  cases draft.manifest with
  | some => simp
  | none => by_cases hpath : path = "" <;> simp [hpath]

/-- There is one file for the header, and its path is not empty. -/
theorem Draft.take_out {text : String} :
    draft.take (.value .out text) = .ok final ↔
      draft.out = none ∧ text ≠ "" ∧ { draft with out := some text } = final := by
  unfold take setValue
  cases draft.out with
  | some => simp
  | none => by_cases htext : text = "" <;> simp [htext]

/-- There is one style, which is named. -/
theorem Draft.take_naming {text : String} :
    draft.take (.value .naming text) = .ok final ↔
      draft.style = none ∧ ∃ style, Style.ofName? text = some style ∧
        { draft with style := some style } = final := by
  unfold take setValue
  cases draft.style with
  | some => simp
  | none =>
    simp only [Option.isSome_none, Bool.false_eq_true, if_false, true_and]
    cases Style.ofName? text <;> simp

theorem Draft.take_stdout :
    draft.take .stdout = .ok final ↔
      draft.toStdout = false ∧ { draft with toStdout := true } = final := by
  unfold take
  cases draft.toStdout <;> simp

theorem Draft.take_verbose :
    draft.take .verbose = .ok final ↔
      draft.verbose = false ∧ { draft with verbose := true } = final := by
  unfold take
  cases draft.verbose <;> simp

/-- What a draft gains by choices. A place that holds something cannot be filled again. -/
@[mk_iff]
structure Draft.Gains (draft : Draft) (choices : List Choice) (final : Draft) : Prop where
  manifest : final.manifest.toList = draft.manifest.toList ++ manifestsOf choices
  named : "" ∉ manifestsOf choices
  out : final.out.toList = draft.out.toList ++ valuesOf .out choices
  filed : "" ∉ valuesOf .out choices
  style : final.style.toList.map some =
    draft.style.toList.map some ++ (valuesOf .naming choices).map Style.ofName?
  stdout : final.toStdout.toNat = draft.toStdout.toNat + choices.count .stdout
  verbose : final.verbose.toNat = draft.verbose.toNat + choices.count .verbose

/-- The first choice is taken, and then the others are gained. -/
theorem Draft.gains_cons {choice : Choice} {choices : List Choice} :
    draft.Gains (choice :: choices) final ↔
      ∃ next, draft.take choice = .ok next ∧ next.Gains choices final := by
  -- there is no room for two in a place, nor for two of a flag
  have hfull : ∀ {α : Type} (place : Option α) (a b : α) (rest : List α),
      place.toList ≠ a :: b :: rest := by
    intro α place a b rest
    cases place <;> simp
  have hset : ∀ (flag : Bool) (count : Nat), flag.toNat ≠ 1 + (count + 1) := by
    intro flag count
    cases flag <;> simp
  obtain ⟨manifest, out, style, toStdout, verbose⟩ := draft
  cases choice with
  | manifest path =>
    simp only [take_manifest, gains_iff, manifestsOf, valuesOf]
    cases manifest with
    | none =>
      simp
      tauto
    | some => simp [hfull]
  | value option text =>
    cases option with
    | out =>
      simp only [take_out, gains_iff, manifestsOf, valuesOf]
      cases out with
      | none =>
        simp
        tauto
      | some => simp [hfull]
    | naming =>
      have hnamed : ∀ (place : Option Style) (rest : List (Option Style)),
          place.toList.map some ≠ none :: rest := by
        intro place rest
        cases place <;> simp
      have hstyled : ∀ (place : Option Style) (a b : Option Style) (rest : List (Option Style)),
          place.toList.map some ≠ a :: b :: rest := by
        intro place a b rest
        cases place <;> simp
      simp only [take_naming, gains_iff, manifestsOf, valuesOf]
      cases style with
      | none => cases hname : Style.ofName? text <;> simp [hname, hnamed]
      | some => simp [hstyled]
  | stdout =>
    simp only [take_stdout, gains_iff, manifestsOf, valuesOf]
    cases toStdout <;> simp [hset, Nat.add_comm]
  | verbose =>
    simp only [take_verbose, gains_iff, manifestsOf, valuesOf]
    cases verbose <;> simp [hset, Nat.add_comm]

/-- Choices are taken exactly when the draft can gain them. -/
theorem Draft.takeAll_eq_ok {choices : List Choice} :
    draft.takeAll choices = .ok final ↔ draft.Gains choices final := by
  induction choices generalizing draft with
  | nil =>
    -- without choices every place of the draft is as it was
    have htoList : ∀ {α : Type} {first second : Option α},
        first.toList = second.toList ↔ first = second := by
      intro α first second
      cases first <;> cases second <;> simp
    have htoNat : ∀ {first second : Bool}, first.toNat = second.toNat ↔ first = second := by
      decide
    have hmap : ∀ {first second : Option Style},
        first.toList.map some = second.toList.map some ↔ first = second := by
      intro first second
      cases first <;> cases second <;> simp
    obtain ⟨manifest, out, style, toStdout, verbose⟩ := draft
    obtain ⟨manifest', out', style', toStdout', verbose'⟩ := final
    rw [gains_iff]
    simp [takeAll, manifestsOf, valuesOf, pure, Except.pure, htoList, hmap, htoNat, eq_comm]
  | cons choice choices ih =>
    rw [takeAll_cons, gains_cons]
    exact exists_congr fun next => and_congr_right fun _ => ih

/-- A draft asks for the run that has what it holds, with the standard style where it holds none. A
header that is printed has no file. -/
theorem Draft.finish_eq_run {invocation : Invocation} :
    draft.finish = .ok (.run invocation) ↔
      draft.manifest = some invocation.manifest ∧ draft.out = invocation.out ∧
        draft.style.getD .standard = invocation.style ∧ draft.toStdout = invocation.toStdout ∧
        draft.verbose = invocation.verbose ∧
        (invocation.toStdout = true → invocation.out = none) := by
  unfold finish
  constructor
  · intro h
    cases hmanifest : draft.manifest with
    | none =>
      rw [hmanifest] at h
      cases h
    | some path =>
      rw [hmanifest] at h
      simp only at h
      -- a header that is printed must not have a file
      split at h
      · cases h
      · rename_i hconflict
        rcases Request.run.inj (Except.ok.inj h) with rfl
        refine ⟨rfl, rfl, rfl, rfl, rfl, fun hprint => ?_⟩
        simpa using not_and.1 hconflict hprint
  · rintro ⟨hmanifest, hout, hstyle, hstdout, hverbose, hprinted⟩
    have hconflict : ¬(invocation.toStdout = true ∧ invocation.out.isSome = true) := by
      rintro ⟨hprint, hsome⟩
      rw [hprinted hprint] at hsome
      cases hsome
    simp only [hmanifest, hout, hstyle, hstdout, hverbose, if_neg hconflict]

/-- A draft that gained everything from choices holds them. -/
theorem Invocation.chosen_iff {invocation : Invocation} {choices : List Choice} :
    invocation.Chosen choices ↔
      ∃ final, Draft.empty.Gains choices final ∧ final.finish = .ok (.run invocation) := by
  constructor
  · intro h
    obtain ⟨style, hstyle, hgained⟩ : ∃ style : Option Style,
        style.getD .standard = invocation.style ∧
          style.toList.map some = (valuesOf .naming choices).map Style.ofName? := by
      rcases h.style with ⟨hnone, hstandard⟩ | ⟨text, hone, hname⟩
      · exact ⟨none, hstandard.symm, by rw [hnone]; rfl⟩
      · exact ⟨some invocation.style, rfl, by rw [hone, List.map_singleton, hname]; rfl⟩
    -- the draft in the end holds what the run is to have
    refine ⟨⟨invocation.manifest, invocation.out, style, invocation.toStdout, invocation.verbose⟩,
      ?_, Draft.finish_eq_run.2 ⟨rfl, rfl, hstyle, rfl, rfl, h.printed⟩⟩
    exact {
      manifest := h.manifest.symm
      named := by simpa [h.manifest] using Ne.symm h.named
      out := h.out.symm
      filed := by
        rw [h.out, Option.mem_toList]
        exact h.filed
      style := hgained
      stdout := by simp [Draft.empty, h.stdout]
      verbose := by simp [Draft.empty, h.verbose] }
  · rintro ⟨final, hgains, hfinish⟩
    obtain ⟨hmanifest, hout, hstyle, hstdout, hverbose, hprinted⟩ :=
      Draft.finish_eq_run.1 hfinish
    have hpath : manifestsOf choices = [invocation.manifest] := by
      simpa [Draft.empty, hmanifest] using hgains.manifest.symm
    have hfile : valuesOf .out choices = invocation.out.toList := by
      simpa [Draft.empty, hout] using hgains.out.symm
    refine ⟨hpath, ?_, hfile, ?_, ?_, ?_, ?_, hprinted⟩
    · intro hempty
      have hnamed := hgains.named
      rw [hpath, hempty] at hnamed
      exact hnamed List.mem_cons_self
    · have hfiled := hgains.filed
      rw [hfile, Option.mem_toList] at hfiled
      exact hfiled
    · have hgained := hgains.style
      rw [← hstyle]
      cases hchosen : final.style with
      | none =>
        rw [hchosen] at hgained
        exact .inl ⟨by simpa [Draft.empty] using hgained, rfl⟩
      | some style =>
        rw [hchosen] at hgained
        obtain ⟨text, hone, hname⟩ := List.map_eq_singleton_iff.1 hgained.symm
        exact .inr ⟨text, hone, hname⟩
    · simpa [Draft.empty, hstdout] using hgains.stdout.symm
    · simpa [Draft.empty, hverbose] using hgains.verbose.symm

/-- Arguments ask for a run just when they choose all of it, and nothing twice. -/
theorem read_eq_run {arguments : List String} {invocation : Invocation} :
    read arguments = .ok (.run invocation) ↔ invocation.AskedBy arguments := by
  constructor
  · intro h
    obtain ⟨choices, final, hspells, htake, hfinish⟩ := spells_of_readFrom h
    have hgains := Draft.takeAll_eq_ok.1 htake
    exact ⟨choices, hspells, Invocation.chosen_iff.2 ⟨final, hgains, hfinish⟩⟩
  · rintro ⟨choices, hspells, hchosen⟩
    obtain ⟨final, hgains, hfinish⟩ := Invocation.chosen_iff.1 hchosen
    exact readFrom_of_spells hspells (Draft.takeAll_eq_ok.2 hgains) hfinish

end

end XrManifest.CommandLine
