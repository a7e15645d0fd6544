import XrManifest.Proofs.Cpp.Pieces
import XrManifest.Proofs.Header.Nesting

/-!
# Parsing headers

The text of a header is all that the host sees of it. A parser for such texts, which knows
nothing of manifests, turns the text of every header into the structs that it was written from.
So what is said of the structs that `Header.parse` finds is said of the text. The main statements
are `Header.parse_text` and `Manifest.header_parse`.
-/

namespace XrManifest

open XrManifest.Cpp XrManifest.Naming

namespace Header

/-- The structs of action sets, three for each, with an empty line in front of each struct. -/
def parseSets : List Piece → Option (List SetStructs)
  | [] => some []
  | .blank :: first :: .blank :: second :: .blank :: third :: rest => do
    let handles ← Struct.parse first
    let states ← Struct.parse second
    let tables ← Struct.parse third
    return ⟨handles, states, tables⟩ :: (← parseSets rest)
  | _ => none

/-- The header that a text is. Every line of the text ends in a line break. -/
def parse (text : String) : Option Header := do
  let lines := linesOf text.toList
  if lines.getLast? ≠ some [] then none
  else
    match ← piecesOf lines.dropLast with
    | .line pragma :: .blank :: rest =>
      if pragma = "#pragma once".toList then return ⟨← parseSets rest⟩ else none
    | _ => none

section
variable {style : Style} {manifest : Manifest}

/-- By induction on the action sets: the three structs of each are parsed, and the empty lines
between them tell them apart. -/
theorem reads_sets {sets : List SetStructs}
    (h : ∀ structs ∈ sets, ∀ struct ∈ structs.toList, struct.Plain) :
    ∃ pieces, (Layout.stack (sets.map SetStructs.layout)).Reads pieces ∧
      parseSets pieces = some sets := by
  induction sets with
  | nil => exact ⟨[], fun _ blocks => by simp [Layout.stack, Layout.lines, Blocks.add], rfl⟩
  | cons structs sets ih =>
    obtain ⟨hstructs, hsets⟩ := List.forall_mem_cons.1 h
    obtain ⟨pieces, hreads, hparse⟩ := ih hsets
    obtain ⟨handles, states, tables⟩ := structs
    simp only [SetStructs.toList, List.forall_mem_cons] at hstructs
    obtain ⟨first, hfirst, hhandles⟩ := hstructs.1.parses
    obtain ⟨second, hsecond, hstates⟩ := hstructs.2.1.parses
    obtain ⟨third, hthird, htables⟩ := hstructs.2.2.1.parses
    have hempty : Layout.Reads .empty [] := fun _ blocks => by simp [Layout.lines, Blocks.add]
    -- the three structs of a set, each behind a blank line
    have hset : (SetStructs.layout ⟨handles, states, tables⟩).Reads
        (([.blank] ++ [first]) ++ (([.blank] ++ [second]) ++ (([.blank] ++ [third]) ++ []))) :=
      (Layout.Reads.blank.append hfirst).append
        ((Layout.Reads.blank.append hsecond).append
          ((Layout.Reads.blank.append hthird).append hempty))
    refine ⟨_, hset.append hreads, ?_⟩
    simp [parseSets, hhandles, hstates, htables, hparse]

/-- The text of a header gives the header back. -/
theorem parse_text {header : Header} (h : ofManifest style manifest = .ok header) :
    parse header.text = some header := by
  have hplain : ∀ structs ∈ header.sets, ∀ struct ∈ structs.toList, struct.Plain := by
    obtain ⟨plans, -, hsets⟩ := ofManifest_eq_ok.1 h
    rw [hsets]
    intro structs hstructs struct hstruct
    obtain ⟨plan, -, rfl⟩ := List.mem_map.1 hstructs
    exact SetStructs.plain hstruct
  obtain ⟨pieces, hreads, hparse⟩ := reads_sets hplain
  have hpragma : LineText "#pragma once" := (Leading.opening (by decide)).lineText
  have hlines := Layout.Reads.append
    ((Layout.Reads.line hpragma (by decide)).append Layout.Reads.blank) hreads
  -- the first two lines and the pieces of the sets are read in one pass
  have hfold : (header.layout.lines 0).foldlM Blocks.step ⟨[], []⟩ =
      some (.add ⟨[], []⟩ (([.line "#pragma once".toList] ++ [.blank]) ++ pieces)) :=
    hlines 0 ⟨[], []⟩
  have hpieces : piecesOf (header.layout.lines 0) =
      some (.line "#pragma once".toList :: .blank :: pieces) := by
    rw [piecesOf, hfold]
    rfl
  -- the text ends in a line feed, so its last line is empty
  have htext : linesOf header.text.toList = header.layout.lines 0 ++ [[]] := by
    rw [text, Layout.render, String.toList_ofList, Layout.linesOf_unlines (fits h 0)]
  rw [parse, htext, List.getLast?_concat, List.dropLast_concat, hpieces, if_neg (not_not.2 rfl),
    Option.bind_eq_bind, Option.bind_some]
  simp only [if_true, hparse]
  rfl

end

end Header

/-- What holds of each action set and the structs from its plan holds of the action sets of a
manifest and the structs that are found in the text of its header, in order. -/
theorem Manifest.header_parse {style : Style} {manifest : Manifest} {text : String}
    {P : ActionSet → Header.SetStructs → Prop}
    (hstructs : ∀ set ∈ manifest.actionSets, ∀ plan, Plan.ofActionSet set = .ok plan →
      P set (.ofPlan style plan))
    (h : manifest.header style = .ok text) :
    ∃ header, Header.parse text = some header ∧
      List.Forall₂ P manifest.actionSets header.sets := by
  obtain ⟨header, hheader, htext, hsets⟩ := header_plans hstructs h
  exact ⟨header, htext ▸ Header.parse_text hheader, hsets⟩

/-- The same for what follows from how the parts of a plan go together. -/
theorem Manifest.header_parse_derived {style : Style} {manifest : Manifest} {text : String}
    {P : ActionSet → Header.SetStructs → Prop}
    (hstructs : ∀ set ∈ manifest.actionSets, ∀ plan : Plan, plan.set = set → plan.Derived →
      P set (.ofPlan style plan))
    (h : manifest.header style = .ok text) :
    ∃ header, Header.parse text = some header ∧
      List.Forall₂ P manifest.actionSets header.sets := by
  refine header_parse (fun set hset plan hplan => ?_) h
  obtain ⟨hsame, hderived⟩ := Plan.derived_of_ofActionSet hplan
  exact hstructs set hset plan hsame hderived

/-- Of a manifest with one action set, the structs are those from the plan of the set. -/
theorem Manifest.exists_header_parse (style : Style) {set : ActionSet} {plan : Plan}
    (h : Plan.ofActionSet set = .ok plan) :
    ∃ text, Manifest.header style ⟨[set]⟩ = .ok text ∧
      Header.parse text = some ⟨[.ofPlan style plan]⟩ := by
  have hheader : Header.ofManifest style ⟨[set]⟩ = .ok ⟨[.ofPlan style plan]⟩ :=
    Header.ofManifest_eq_ok.2 ⟨[plan], mapM_eq_ok.2 (.cons h .nil), rfl⟩
  exact ⟨_, header_eq_ok.2 ⟨_, hheader, rfl⟩, Header.parse_text hheader⟩

end XrManifest
