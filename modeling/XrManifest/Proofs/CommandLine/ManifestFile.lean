import XrManifest.Proofs.CommandLine.Runs
import XrManifest.Proofs.Files.HeaderPath
import XrManifest.Proofs.Header.Nesting

/-!
# The file of a manifest

A run that is not told where the header goes leaves its manifest as it was, unless the
manifest is named like a header: then the header takes its place. The main statement is
`run_leavesManifest`.
-/

namespace XrManifest.CommandLine

open XrManifest.Files

section
variable {tree after : FileTree} {style : Naming.Style} {path : String} {invocation : Invocation}

/-- A manifest and its header are different texts, so only a header that goes elsewhere leaves
the manifest as it was. -/
theorem generateFile_beside (h : generateFile tree style path (headerPath path) = .ok after) :
    after.readBytes path = tree.readBytes path ↔ headerPath path ≠ path := by
  obtain ⟨header, hheader, hwrite⟩ := generateFile_eq_ok.1 h
  obtain ⟨text, htext, hgenerate⟩ := readHeader_eq_ok.1 hheader
  obtain ⟨content, hread, hdecoded⟩ := FileTree.readText_eq_ok.1 htext
  have hdifferent : header.toUTF8 ≠ content := by
    rintro rfl
    rw [Text.fromUTF8?_toUTF8] at hdecoded
    rw [← Option.some.inj hdecoded] at hgenerate
    obtain ⟨manifest, hmanifest, hof⟩ := generate_eq_ok.1 hgenerate
    exact Manifest.read_header_ne_ok hof manifest hmanifest
  rw [FileTree.readBytes_headerPath hread hwrite, hread]
  by_cases hpath : headerPath path = path
  · rw [if_pos hpath]
    exact iff_of_false (fun hsame => hdifferent (Except.ok.inj hsame)) fun hother => hother hpath
  · rw [if_neg hpath]
    exact iff_of_true rfl hpath

theorem Invocation.output_eq (h : invocation.out = none) :
    invocation.output = headerPath invocation.manifest := by
  rw [output, h]
  rfl

/-- A run that is asked for no file writes the header at the path that it makes of its manifest. -/
theorem Invocation.run_eq_stored (hout : invocation.out = none)
    (hstdout : invocation.toStdout = false)
    (hrun : generateFile tree invocation.style invocation.manifest
      (headerPath invocation.manifest) = .ok after) :
    invocation.run tree = (.stored, after) := by
  rw [← output_eq hout] at hrun
  exact run_stored hstdout (FileTree.run_generateFile_eq_ok.2 hrun)

/-- Such a run leaves its manifest as it is, unless this is where the header is stored. -/
theorem Invocation.run_leaves (h : invocation.out = none) :
    (invocation.run tree).2.readBytes invocation.manifest = tree.readBytes invocation.manifest ↔
      ¬ (headerPath invocation.manifest = invocation.manifest ∧
        (invocation.run tree).1 = .stored) := by
  cases hstdout : invocation.toStdout with
  | true =>
    cases hread : readHeader tree invocation.style invocation.manifest with
    | ok header => simp [run_printed hstdout hread]
    | error error => simp [run_unprinted hstdout hread]
  | false =>
    -- only a run that stores a header can change its manifest
    cases hrun : generateFile tree invocation.style invocation.manifest
        (headerPath invocation.manifest) with
    | ok after =>
      rw [run_eq_stored h hstdout hrun]
      simpa using generateFile_beside hrun
    | error error =>
      rw [← output_eq h] at hrun
      simp [run_unstored hstdout (FileTree.run_generateFile_of_eq_error hrun)]

end

/-- A working directory with a manifest without action sets. -/
def workWith (name : String) : FileTree :=
  (FileTree.empty ["work"]).store ["work", name] "\x7b\"actionSets\": []\x7d".toUTF8

theorem rooted_workWith (name : String) : (workWith name).Rooted := by
  have hfree : FileTree.entry? (FileTree.empty ["work"]) ["work", name] = none := by
    simp [ FileTree.entry?, FileTree.empty, List.range_succ]
  apply (FileTree.rooted_empty ["work"]).store
  simp [hfree]

/-- A run that is not told where the header goes leaves its manifest as it was, whether it
succeeds or fails, unless it succeeds and the path of the header is that of the manifest; and
so does the generation of a header file beside a manifest. Where directories are in
directories, the paths of a manifest and of its header are the same just when the manifest is
named like a header. -/
theorem run_leavesManifest (tree : FileTree) :
    (∀ arguments invocation, read arguments = .ok (.run invocation) → invocation.out = none →
      ((answer tree arguments).2.readBytes invocation.manifest =
          tree.readBytes invocation.manifest ↔
        ¬ (headerPath invocation.manifest = invocation.manifest ∧
          (answer tree arguments).1 = .stored))) ∧
    (∀ style path after, generateFile tree style path (headerPath path) = .ok after →
      (after.readBytes path = tree.readBytes path ↔ headerPath path ≠ path)) ∧
    (tree.Rooted → ∀ path content, tree.readBytes path = .ok content →
      (headerPath path = path ↔ NamesHeader path)) := by
  refine ⟨?_, ?_, ?_⟩
  · intro arguments invocation hread hout
    rw [answer_of_read hread]
    exact Invocation.run_leaves hout
  · intro style path after hgenerate
    exact generateFile_beside hgenerate
  · intro htree path content hread
    exact htree.headerPath_eq_self hread

/-- The header of `a.json` goes to `a.h`. -/
theorem run_leavesManifest_json :
    ∃ (tree : FileTree) (invocation : Invocation) (after : FileTree) (content : ByteArray),
      tree.Rooted ∧ read ["a.json"] = .ok (.run invocation) ∧ invocation.out = none ∧
      (answer tree ["a.json"]).1 = .stored ∧
      (answer tree ["a.json"]).2.readBytes invocation.manifest =
        tree.readBytes invocation.manifest ∧
      generateFile tree .pascal "a.json" (headerPath "a.json") = .ok after ∧
      tree.readBytes "a.json" = .ok content ∧ after.readBytes "a.json" = .ok content ∧
      ¬ NamesHeader "a.json" := by
  let invocation : Invocation := ⟨"a.json", none, .pascal, false, false⟩
  let tree := workWith "a.json"
  let after := tree.store ["work", "a.h"] "#pragma once\n\n".toUTF8
  have htree : tree.Rooted := rooted_workWith _
  have harguments : read ["a.json"] = .ok (.run invocation) := by cbv
  have hout : invocation.out = none := rfl
  have hheader : readHeader tree .pascal "a.json" = .ok "#pragma once\n\n" := by cbv
  have hpath : headerPath "a.json" = "a.h" := by cbv
  have hplace : tree.placeToWrite "a.h" = .ok ["work", "a.h"] := by cbv
  have hrun : generateFile tree .pascal "a.json" (headerPath "a.json") = .ok after := by
    rw [hpath]
    exact generateFile_eq_ok.2 ⟨_, hheader, bind_eq_ok.2 ⟨_, hplace, rfl⟩⟩
  have hread : tree.readBytes "a.json" = .ok "\x7b\"actionSets\": []\x7d".toUTF8 := by cbv
  -- the header is stored beside the manifest
  have hother : headerPath "a.json" ≠ "a.json" := by
    rw [hpath]
    decide
  have hstored : (answer tree ["a.json"]).1 = .stored := by
    rw [answer_of_read harguments, Invocation.run_eq_stored hout rfl hrun]
  obtain ⟨hcommand, hgenerate, hnames⟩ := run_leavesManifest tree
  have hleft := (hcommand ["a.json"] invocation harguments hout).2 fun h => hother h.1
  have hbeside := (hgenerate .pascal "a.json" after hrun).2 hother
  have hnamed : ¬ NamesHeader "a.json" := by
    rw [← hnames htree "a.json" _ hread]
    exact hother
  exact ⟨tree, invocation, after, _, htree, harguments, hout, hstored, hleft, hrun, hread,
    hbeside.trans hread, hnamed⟩

/-- A manifest that is named like a header is lost. -/
theorem not_run_leavesManifest_header :
    ¬ ∀ (tree : FileTree) (arguments : List String) (invocation : Invocation), tree.Rooted →
      read arguments = .ok (.run invocation) → invocation.out = none →
        (answer tree arguments).2.readBytes invocation.manifest =
          tree.readBytes invocation.manifest := by
  intro hclaim
  let invocation : Invocation := ⟨"a.h", none, .pascal, false, false⟩
  let tree := workWith "a.h"
  have htree : tree.Rooted := rooted_workWith _
  have harguments : read ["a.h"] = .ok (.run invocation) := by cbv
  have hout : invocation.out = none := rfl
  have hheader : readHeader tree .pascal "a.h" = .ok "#pragma once\n\n" := by cbv
  -- a path with this extension is the path of its own header
  have hpath : headerPath "a.h" = "a.h" := by cbv
  have hplace : tree.placeToWrite "a.h" = .ok ["work", "a.h"] := by cbv
  have hwrite : tree.write "a.h" "#pragma once\n\n".toUTF8 =
      .ok (tree.store ["work", "a.h"] "#pragma once\n\n".toUTF8) :=
    bind_eq_ok.2 ⟨_, hplace, rfl⟩
  have hrun : generateFile tree .pascal "a.h" (headerPath "a.h") =
      .ok (tree.store ["work", "a.h"] "#pragma once\n\n".toUTF8) := by
    rw [hpath]
    exact generateFile_eq_ok.2 ⟨_, hheader, hwrite⟩
  have hsame := hclaim tree ["a.h"] invocation htree harguments hout
  rw [answer_of_read harguments, Invocation.run_leaves hout] at hsame
  have hstored : invocation.run tree = (.stored, _) := Invocation.run_eq_stored hout rfl hrun
  exact hsame ⟨hpath, by rw [hstored]⟩

end XrManifest.CommandLine
