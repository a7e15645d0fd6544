import Mathlib
import XrManifest.CommandLine.Reply
import XrManifest.Proofs.CommandLine.Arguments
import XrManifest.Proofs.Files.Writing

/-!
# Runs of the command

A run prints the header of its manifest or puts it into a file, or it fails and changes
nothing. The main statement is `run_allOrNothing`.
-/

namespace XrManifest.CommandLine

open XrManifest.Files

/-- What a run that prints answers: the header and success, or no text and failure. The files
stay as they are. -/
structure Invocation.Prints (invocation : Invocation) (tree : FileTree) (reply : Reply)
    (after : FileTree) : Prop where
  unchanged : after = tree
  printed : ∀ header, readHeader tree invocation.style invocation.manifest = .ok header →
    reply.exitCode = 0 ∧ reply.output = header
  failed : ∀ error, readHeader tree invocation.style invocation.manifest = .error error →
    reply.exitCode = 1 ∧ reply.output = ""

/-- What a run that writes to `output` answers: no text, and success with the header in its
file, or failure with all files as they were. -/
structure Invocation.Stores (invocation : Invocation) (tree : FileTree) (output : String)
    (reply : Reply) (after : FileTree) : Prop where
  silent : reply.output = ""
  stored : ∀ header written, readHeader tree invocation.style invocation.manifest = .ok header →
    tree.write output header.toUTF8 = .ok written →
      reply.exitCode = 0 ∧ tree.Replaced output header after
  failed : (∀ header written,
      readHeader tree invocation.style invocation.manifest = .ok header →
        tree.write output header.toUTF8 ≠ .ok written) →
    reply.exitCode = 1 ∧ after = tree

section
variable {tree after : FileTree} {invocation : Invocation} {header : String} {error : RunError}

/-! ## Answers of a run -/

/-- What an attempt answers is answered, with the files as it leaves them. -/
theorem Invocation.run_of_ok {reply : Reply}
    (h : (invocation.attempt FileTree.access).run tree = (.ok reply, after)) :
    invocation.run tree = (reply, after) := by
  unfold run follow
  show StateT.bind _ _ tree = _
  rw [StateT.bind, h]
  rfl

/-- A failure is reported, and the files stay as they were when it came. -/
theorem Invocation.run_of_error
    (h : (invocation.attempt FileTree.access).run tree = (.error error, after)) :
    invocation.run tree = (.failed invocation.context error, after) := by
  unfold run follow
  show StateT.bind _ _ tree = _
  rw [StateT.bind, h]
  rfl

/-- A header that is printed leaves the files as they were. -/
theorem Invocation.run_printed (hstdout : invocation.toStdout = true)
    (h : readHeader tree invocation.style invocation.manifest = .ok header) :
    invocation.run tree = (.printed header, tree) := by
  have hread : (FileTree.access.readHeader invocation.style invocation.manifest).run tree =
      (.ok header, tree) := by rw [FileTree.run_readHeader_eq, h]
  apply run_of_ok
  rw [attempt, if_pos hstdout, run_bind_of_ok hread]
  rfl

/-- What keeps a header from being printed is reported. -/
theorem Invocation.run_unprinted (hstdout : invocation.toStdout = true)
    (h : readHeader tree invocation.style invocation.manifest = .error error) :
    invocation.run tree = (.failed invocation.context error, tree) := by
  have hread : (FileTree.access.readHeader invocation.style invocation.manifest).run tree =
      (.error error, tree) := by rw [FileTree.run_readHeader_eq, h]
  apply run_of_error
  rw [attempt, if_pos hstdout, run_bind_of_error hread]

theorem Invocation.run_stored (hstdout : invocation.toStdout = false)
    (h : (FileTree.access.generateFile invocation.style invocation.manifest
      invocation.output).run tree = (.ok (), after)) :
    invocation.run tree = (.stored, after) := by
  apply run_of_ok
  rw [attempt, hstdout, if_neg Bool.false_ne_true, run_bind_of_ok h]
  rfl

/-- What keeps a header from being written is reported, with the files as the generation left them.
-/
theorem Invocation.run_unstored (hstdout : invocation.toStdout = false)
    (h : (FileTree.access.generateFile invocation.style invocation.manifest
      invocation.output).run tree = (.error error, after)) :
    invocation.run tree = (.failed invocation.context error, after) := by
  apply run_of_error
  rw [attempt, hstdout, if_neg Bool.false_ne_true, run_bind_of_error h]

/-- A run that prints ends as the reading of the header does. -/
theorem Invocation.run_prints (h : invocation.toStdout = true) :
    invocation.Prints tree (invocation.run tree).1 (invocation.run tree).2 := by
  cases hread : readHeader tree invocation.style invocation.manifest with
  | ok header =>
    rw [run_printed h hread]
    refine ⟨rfl, ?_, ?_⟩
    · intro other hother
      have hsame : header = other := Except.ok.inj (hread.symm.trans hother)
      exact ⟨rfl, hsame⟩
    · intro error herror
      rw [hread] at herror
      cases herror
  | error error =>
    rw [run_unprinted h hread]
    refine ⟨rfl, ?_, ?_⟩
    · intro header hheader
      rw [hread] at hheader
      cases hheader
    · intro _ _
      exact ⟨rfl, rfl⟩

/-- A run that writes ends as the generation of the header file does. -/
theorem Invocation.run_stores (h : invocation.toStdout = false) :
    invocation.Stores tree invocation.output (invocation.run tree).1 (invocation.run tree).2 := by
  -- the run answers what the generation ends with
  have hends : tree.Generates invocation.style invocation.manifest invocation.output _ _ :=
    FileTree.generates_run
  cases hrun : (FileTree.access.generateFile invocation.style invocation.manifest
      invocation.output).run tree with
  | mk outcome after =>
    rw [hrun] at hends
    cases outcome with
    | ok =>
      rw [run_stored h hrun]
      refine ⟨rfl, ?_, ?_⟩
      · intro header written hheader hwrite
        exact ⟨rfl, (hends.stored header written hheader hwrite).2.2⟩
      · intro hnone
        obtain ⟨⟨error, herror⟩, -⟩ := hends.failed hnone
        cases herror
    | error error =>
      rw [run_unstored h hrun]
      refine ⟨rfl, ?_, ?_⟩
      · intro header written hheader hwrite
        have hdone := (hends.stored header written hheader hwrite).1
        cases hdone
      · intro hnone
        exact ⟨rfl, (hends.failed hnone).2⟩

theorem answer_of_read {arguments : List String} (h : read arguments = .ok (.run invocation)) :
    answer tree arguments = invocation.run tree := by
  unfold answer respond
  rw [h]
  rfl

end

/-- The arguments that are accepted are those that choose a run, and they are followed as a whole
or not at all, by printing or by writing. A header file is generated as a whole or not at all. -/
theorem run_allOrNothing (tree : FileTree) :
    (∀ arguments (invocation : Invocation),
      read arguments = .ok (.run invocation) ↔ invocation.AskedBy arguments) ∧
    (∀ arguments (invocation : Invocation) reply after, invocation.AskedBy arguments →
      answer tree arguments = (reply, after) →
        (invocation.toStdout = true → invocation.Prints tree reply after) ∧
        (invocation.toStdout = false →
          invocation.Stores tree (invocation.out.getD (headerPath invocation.manifest)) reply
            after)) ∧
    ∀ style input output,
      tree.Generates style input output
        ((FileTree.access.generateFile style input output).run tree).1
        ((FileTree.access.generateFile style input output).run tree).2 := by
  refine ⟨fun arguments invocation => read_eq_run, ?_, fun style input output =>
    FileTree.generates_run⟩
  intro arguments invocation reply after hasked hanswer
  rw [answer_of_read (read_eq_run.2 hasked)] at hanswer
  have hreply : reply = (invocation.run tree).1 := by rw [hanswer]
  have hafter : after = (invocation.run tree).2 := by rw [hanswer]
  rw [hreply, hafter]
  exact ⟨Invocation.run_prints, Invocation.run_stores⟩

/-- A header file from before is replaced. -/
theorem run_allOrNothing_replaces :
    ∃ (tree : FileTree) (reply : Reply) (after : FileTree),
      tree.Rooted ∧ tree.readBytes "a.h" = .ok "old".toUTF8 ∧
      readHeader tree .pascal "a.json" = .ok "#pragma once\n\n" ∧
      answer tree ["a.json"] = (reply, after) ∧ reply.exitCode = 0 ∧ reply.output = "" ∧
      tree.Replaced "a.h" "#pragma once\n\n" after ∧
      after.readText "a.h" = .ok "#pragma once\n\n" := by
  let work := FileTree.empty ["work"]
  let source := work.store ["work", "a.json"] "\x7b\"actionSets\": []\x7d".toUTF8
  let tree := source.store ["work", "a.h"] "old".toUTF8
  let invocation : Invocation := ⟨"a.json", none, .pascal, false, false⟩
  -- a file is put in the place of no directory, so that the tree stays rooted
  have hwork : work.entry? ["work", "a.json"] ≠ some .directory := by
    have hentry : work.entry? ["work", "a.json"] = none := by cbv
    simp [hentry]
  have hsource : source.entry? ["work", "a.h"] ≠ some .directory := by
    have hentry : source.entry? ["work", "a.h"] = none := by cbv
    simp [hentry]
  have htree : tree.Rooted := ((FileTree.rooted_empty ["work"]).store hwork).store hsource
  have harguments : read ["a.json"] = .ok (.run invocation) := by cbv
  have hheader : readHeader tree .pascal "a.json" = .ok "#pragma once\n\n" := by cbv
  have hplace : tree.placeToWrite "a.h" = .ok ["work", "a.h"] := by cbv
  have hwrite : tree.write "a.h" "#pragma once\n\n".toUTF8 =
      .ok (tree.store ["work", "a.h"] "#pragma once\n\n".toUTF8) :=
    bind_eq_ok.2 ⟨_, hplace, rfl⟩
  have houtput : headerPath "a.json" = "a.h" := by cbv
  cases hanswer : answer tree ["a.json"] with
  | mk reply after =>
    obtain ⟨haccepted, hfollowed, -⟩ := run_allOrNothing tree
    have hasked := (haccepted ["a.json"] invocation).1 harguments
    have hstores := (hfollowed ["a.json"] invocation reply after hasked hanswer).2 rfl
    have hout : invocation.out.getD (headerPath invocation.manifest) = "a.h" := by
      simpa [invocation] using houtput
    rw [hout] at hstores
    obtain ⟨hcode, hreplaced⟩ := hstores.stored "#pragma once\n\n" _ hheader hwrite
    refine ⟨tree, reply, after, htree, by cbv, hheader, hanswer, hcode, hstores.silent, ?_⟩
    exact ⟨hreplaced, hreplaced.content htree⟩

end XrManifest.CommandLine
