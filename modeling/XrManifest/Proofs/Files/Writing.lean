import Mathlib.Data.List.TakeWhile
import XrManifest.Files.Run
import XrManifest.Proofs.Outcomes
import XrManifest.Proofs.Text.Bytes

/-!
# Writing files

A write changes the file at one place and nothing else, and the text that was written is
what is read from the same path afterwards. The main statements are
`FileTree.replaced_of_write` and `generateFile_eq_ok`.
-/

namespace XrManifest.Files

namespace FileTree

variable {tree after : FileTree} {place target : Place} {content : ByteArray} {path : String}

/-! ## Storing a file -/

/-- Only the place of the file has another entry. -/
theorem entry?_store (other : Place) :
    FileTree.entry? (tree.store place content) other =
      if other = place then some (.file content) else tree.entry? other := by
  -- leaving out the file at the place does not change what is found elsewhere
  have hkept : ∀ files : List (Place × ByteArray), other ≠ place →
      (files.filter fun file => file.1 ≠ place).lookup other = files.lookup other := by
    intro files hne
    induction files with
    | nil => rfl
    | cons file files ih =>
      by_cases hfile : file.1 = place
      · have htest : (other == file.1) = false := by simpa [hfile] using hne
        rw [List.filter_cons_of_neg (by simpa using hfile), List.lookup_cons, htest]
        exact ih
      · rw [List.filter_cons_of_pos (by simpa using hfile), List.lookup_cons, List.lookup_cons, ih]
  by_cases hsame : other = place
  · rw [if_pos hsame, hsame]
    simp [ entry?, store]
  · rw [if_neg hsame]
    have htest : (other == place) = false := by simpa using hsame
    unfold entry? store
    simp only [List.lookup_cons, htest]
    rw [hkept tree.files hsame]

/-! ## Following paths -/

/-- Only a directory can be followed. -/
theorem directory_of_follow {segment : List Char} {next : Place}
    (h : tree.follow place segment = .ok next) : tree.entry? place = some .directory := by
  unfold follow at h
  split at h
  · cases h
  · cases h
  · assumption

/-- A file that is stored where no directory is stops nobody. -/
theorem follow_store (htarget : tree.entry? target ≠ some .directory) {segment : List Char}
    {next : Place} (h : tree.follow place segment = .ok next) :
    (tree.store target content).follow place segment = .ok next := by
  have hdirectory := directory_of_follow h
  have hplace : place ≠ target := by
    intro hsame
    rw [hsame] at hdirectory
    exact htarget hdirectory
  have hentry : FileTree.entry? (tree.store target content) place = tree.entry? place := by
    rw [entry?_store, if_neg hplace]
  unfold follow at h ⊢
  rw [hentry]
  exact h

/-- A file that is stored where no directory was is in the way of no path. -/
theorem foldlM_follow_store (htarget : tree.entry? target ≠ some .directory)
    (segments : List (List Char)) {start next : Place}
    (h : segments.foldlM tree.follow start = .ok next) :
    segments.foldlM (tree.store target content).follow start = .ok next := by
  induction segments generalizing start with
  | nil => exact h
  | cons segment segments ih =>
    rw [List.foldlM_cons] at h ⊢
    obtain ⟨between, hfirst, hrest⟩ := bind_eq_ok.1 h
    exact bind_eq_ok.2 ⟨between, follow_store htarget hfirst, ih hrest⟩

/-! ## Paths that can be written -/

/-- The root is a directory, and so is what a directory is in. -/
structure Rooted (tree : FileTree) : Prop where
  root : tree.entry? [] = some .directory
  parents : ∀ place, tree.entry? place = some .directory →
    tree.entry? place.dropLast = some .directory

/-- A tree with an empty directory is rooted. -/
theorem rooted_empty (current : Place) : (empty current).Rooted := by
  -- the directories are those on the way to the current one
  have hentry : ∀ place, FileTree.entry? (empty current) place = some .directory ↔
      ∃ n, place = current.take n := by
    intro place
    have hfiles : (empty current).files.lookup place = none := rfl
    unfold entry?
    rw [hfiles]
    simp only [empty, ite_eq_left_iff, reduceCtorEq, imp_false, not_not, List.mem_map,
      List.mem_range]
    constructor
    · rintro (rfl | ⟨n, -, rfl⟩)
      · exact ⟨0, rfl⟩
      · exact ⟨n, rfl⟩
    · rintro ⟨n, rfl⟩
      refine .inr ⟨min n current.length, by omega, ?_⟩
      rw [← List.take_take, List.take_length]
  constructor
  · exact (hentry []).2 ⟨0, rfl⟩
  · intro place hplace
    obtain ⟨n, rfl⟩ := (hentry place).1 hplace
    refine (hentry _).2 ⟨min ((current.take n).length - 1) n, ?_⟩
    rw [List.dropLast_eq_take, List.take_take]

/-- A file that is stored where no directory is leaves the tree rooted. -/
theorem Rooted.store (h : tree.Rooted) (htarget : tree.entry? target ≠ some .directory) :
    (tree.store target content).Rooted := by
  have hdirectory : ∀ place, FileTree.entry? (tree.store target content) place = some .directory ↔
      tree.entry? place = some .directory := by
    intro place
    rw [entry?_store]
    split
    · next hsame =>
      rw [hsame]
      simp [htarget]
    · exact Iff.rfl
  constructor
  · exact (hdirectory []).2 h.root
  · intro place hplace
    exact (hdirectory _).2 (h.parents place ((hdirectory place).1 hplace))

/-- Dots lead from a directory to a directory. -/
theorem Rooted.follow_dots (h : tree.Rooted) {segment : List Char} {next : Place}
    (hdots : segment = ['.'] ∨ segment = ['.', '.'])
    (hfollow : tree.follow place segment = .ok next) : tree.entry? next = some .directory := by
  have hplace := directory_of_follow hfollow
  unfold follow at hfollow
  rw [hplace] at hfollow
  rcases hdots with rfl | rfl
  · have hnext : place = next := Except.ok.inj hfollow
    rw [← hnext]
    exact hplace
  · have hnext : place.dropLast = next := Except.ok.inj hfollow
    rw [← hnext]
    exact h.parents place hplace

/-- A path whose segments are all empty starts at the root. -/
theorem startOf_of_segments {text : List Char} (hne : text ≠ [])
    (h : ∀ segment ∈ segments text, segment = []) : tree.startOf text = [] := by
  cases text with
  | nil => exact absurd rfl hne
  | cons c rest =>
    by_cases hslash : c = '/'
    · rw [hslash]
      rfl
    · -- the first segment starts with the character
      have hsegments : segments (c :: rest) = (segments rest).modifyHead (c :: ·) := by
        unfold segments
        rw [List.splitOnP_cons_eq_if_modifyHead]
        simp [hslash]
      rw [hsegments] at h
      cases hrest : segments rest with
      | nil => exact absurd hrest (List.splitOnP_ne_nil _ _)
      | cons first others =>
        rw [hrest, List.modifyHead_cons] at h
        exact absurd (h _ List.mem_cons_self) (List.cons_ne_nil c first)

/-- In a rooted tree, a path that can be written has a name at its end, so it is followed as
it is written. -/
theorem segmentsToWrite_eq (htree : tree.Rooted) {text : List Char} (hne : text ≠ [])
    (hfollow : (segmentsToWrite (segments text)).foldlM tree.follow (tree.startOf text) =
      .ok place)
    (hplace : tree.entry? place ≠ some .directory) :
    segmentsToWrite (segments text) = segments text := by
  have hdropped : (segments text).reverse.dropWhile (· = []) <:+ (segments text).reverse :=
    List.dropWhile_suffix _
  unfold segmentsToWrite at hfollow ⊢
  cases hcut : (segments text).reverse.dropWhile (· = []) with
  | nil =>
    -- only the root is left
    rw [hcut] at hfollow
    have hempty : ∀ segment ∈ segments text, segment = [] := by
      intro segment hsegment
      have hall := List.dropWhile_eq_nil_iff.1 hcut segment (List.mem_reverse.2 hsegment)
      exact of_decide_eq_true hall
    have hroot : place = [] := by
      rw [startOf_of_segments hne hempty] at hfollow
      exact (Except.ok.inj hfollow).symm
    rw [hroot] at hplace
    exact absurd htree.root hplace
  | cons name parents =>
    rw [hcut] at hfollow hdropped
    simp only at hfollow ⊢
    by_cases hclosed : parents.length + 1 < (segments text).length
    · -- dots stand at the end, and lead to a directory
      rw [List.reverse_cons, List.foldlM_append] at hfollow
      obtain ⟨parent, -, hlast⟩ := bind_eq_ok.1 hfollow
      rw [List.foldlM_cons] at hlast
      obtain ⟨next, hnext, hdone⟩ := bind_eq_ok.1 hlast
      have hsame : next = place := Except.ok.inj hdone
      rw [hsame] at hnext
      apply absurd (htree.follow_dots _ hnext) hplace
      by_cases hname : name = ['.', '.']
      · right
        simp [hname]
      · left
        simp [hclosed, hname]
    · -- nothing was dropped
      have hlength := hdropped.length_le
      have hwhole : name :: parents = (segments text).reverse := by
        apply hdropped.eq_of_length
        simp only [List.length_cons, List.length_reverse] at hlength ⊢
        omega
      simp only [hclosed, false_and, if_false]
      rw [hwhole, List.reverse_reverse]

/-! ## Writing a file -/

theorem checkedSegments_eq_ok {text : List Char} {found : List (List Char)}
    (h : checkedSegments text = .ok found) : text ≠ [] ∧ found = segments text := by
  unfold checkedSegments at h
  split at h
  · cases h
  · split at h
    · cases h
    · split at h
      · cases h
      · exact ⟨by assumption, (Except.ok.inj h).symm⟩

/-- A file is read where its path leads, and only there. -/
theorem readBytes_eq_ok :
    tree.readBytes path = .ok content ↔
      checkedSegments path.toList = .ok (segments path.toList) ∧
        ∃ place, (segments path.toList).foldlM tree.follow (tree.startOf path.toList) = .ok place ∧
          tree.entry? place = some (.file content) := by
  constructor
  · intro h
    obtain ⟨found, hfound, hrest⟩ := bind_eq_ok.1 h
    obtain ⟨-, rfl⟩ := checkedSegments_eq_ok hfound
    obtain ⟨place, hplace, hentry⟩ := bind_eq_ok.1 hrest
    split at hentry
    · next bytes hfile =>
      rcases Except.ok.inj hentry with rfl
      exact ⟨hfound, place, hplace, hfile⟩
    · cases hentry
    · cases hentry
  · rintro ⟨hchecked, place, hplace, hentry⟩
    refine bind_eq_ok.2 ⟨_, hchecked, bind_eq_ok.2 ⟨place, hplace, ?_⟩⟩
    rw [hentry]
    rfl

theorem readText_eq_ok {text : String} :
    tree.readText path = .ok text ↔
      ∃ content, tree.readBytes path = .ok content ∧ String.fromUTF8? content = some text := by
  unfold readText
  rw [bind_eq_ok]
  refine exists_congr fun content => and_congr_right fun _ => ?_
  cases String.fromUTF8? content with
  | none => exact ⟨fun h => (nomatch h), fun h => (nomatch h)⟩
  | some decoded =>
    constructor
    · intro h
      exact congrArg some (Except.ok.inj h)
    · intro h
      exact congrArg Except.ok (Option.some.inj h)

/-- A file is written where its path leads, if no directory is there. -/
theorem placeToWrite_eq_ok (h : tree.placeToWrite path = .ok place) :
    checkedSegments path.toList = .ok (segments path.toList) ∧ path.toList ≠ [] ∧
      (segmentsToWrite (segments path.toList)).foldlM tree.follow (tree.startOf path.toList) =
        .ok place ∧
      tree.entry? place ≠ some .directory := by
  obtain ⟨found, hfound, hrest⟩ := bind_eq_ok.1 h
  obtain ⟨hne, rfl⟩ := checkedSegments_eq_ok hfound
  obtain ⟨target, htarget, hentry⟩ := bind_eq_ok.1 hrest
  split at hentry
  · cases hentry
  · next hdirectory =>
    rcases Except.ok.inj hentry with rfl
    exact ⟨hfound, hne, htarget, hdirectory⟩

/-- A write that succeeds stores the file at its place. -/
theorem write_eq_ok (h : tree.write path content = .ok after) :
    ∃ place, tree.placeToWrite path = .ok place ∧ after = tree.store place content := by
  obtain ⟨place, hplace, hstore⟩ := bind_eq_ok.1 h
  exact ⟨place, hplace, (Except.ok.inj hstore).symm⟩

/-- Writing a file leaves every directory in a directory. -/
theorem Rooted.write (htree : tree.Rooted) (h : tree.write path content = .ok after) :
    after.Rooted := by
  obtain ⟨place, hplace, rfl⟩ := write_eq_ok h
  exact htree.store (placeToWrite_eq_ok hplace).2.2.2

/-- What is written to a path is read from it. -/
theorem readBytes_write (htree : tree.Rooted) (h : tree.write path content = .ok after) :
    after.readBytes path = .ok content := by
  obtain ⟨place, hplace, rfl⟩ := write_eq_ok h
  obtain ⟨hchecked, hne, hfollow, hentry⟩ := placeToWrite_eq_ok hplace
  rw [segmentsToWrite_eq htree hne hfollow hentry] at hfollow
  have hagain : (segments path.toList).foldlM (tree.store place content).follow
      ((tree.store place content).startOf path.toList) = .ok place :=
    foldlM_follow_store hentry _ hfollow
  have hstored : FileTree.entry? (tree.store place content) place = some (.file content) := by
    rw [entry?_store, if_pos rfl]
  exact readBytes_eq_ok.2 ⟨hchecked, place, hagain, hstored⟩

/-- The file at a path holds a text, and every other file and directory is as before. -/
structure Replaced (tree : FileTree) (path text : String) (after : FileTree) : Prop where
  /-- The path leads to one place, which now has the bytes of the text. -/
  elsewhere : ∃ place, tree.placeToWrite path = .ok place ∧
    after.entry? place = some (.file text.toUTF8) ∧
    ∀ other, other ≠ place → after.entry? other = tree.entry? other
  /-- Relative paths start where they did. -/
  current : after.current = tree.current
  /-- Where directories are in directories, the text is what is read from the path. -/
  content : tree.Rooted → after.readText path = .ok text

/-- A write that succeeds replaces the file at its path and nothing else. -/
theorem replaced_of_write {text : String} (h : tree.write path text.toUTF8 = .ok after) :
    tree.Replaced path text after := by
  have hread : tree.Rooted → after.readBytes path = .ok text.toUTF8 := by
    intro htree
    exact readBytes_write htree h
  obtain ⟨place, hplace, rfl⟩ := write_eq_ok h
  constructor
  · refine ⟨place, hplace, ?_, ?_⟩
    · rw [entry?_store, if_pos rfl]
    · intro other hother
      rw [entry?_store, if_neg hother]
  · rfl
  · intro htree
    exact readText_eq_ok.2 ⟨_, hread htree, Text.fromUTF8?_toUTF8 text⟩

end FileTree

/-! ## Writing a header -/

section
variable {tree after : FileTree} {style : Naming.Style} {input output header : String}

/-- The header is made of the text of the manifest, and no file is changed on the way. -/
theorem FileTree.run_readHeader :
    (FileTree.access.readHeader style input).run tree =
      ((tree.readText input).mapError (RunError.read input) >>= fun text =>
        (XrManifest.generate style text).mapError RunError.generate, tree) := by
  have hread : (ExceptT.adapt (RunError.read input) (FileTree.access.read input)).run tree =
      ((tree.readText input).mapError (RunError.read input), tree) := rfl
  unfold FileAccess.readHeader
  cases htext : tree.readText input with
  | error cause =>
    rw [htext] at hread
    rw [run_bind_of_error hread]
    rfl
  | ok text =>
    rw [htext] at hread
    rw [run_bind_of_ok hread]
    rfl

theorem FileTree.run_readHeader_eq :
    (FileTree.access.readHeader style input).run tree = (readHeader tree style input, tree) := by
  rw [readHeader, run_readHeader]

/-- A header is that of the text of its manifest. -/
theorem readHeader_eq_ok :
    readHeader tree style input = .ok header ↔
      ∃ text, tree.readText input = .ok text ∧ XrManifest.generate style text = .ok header := by
  rw [readHeader, FileTree.run_readHeader, bind_eq_ok]
  refine exists_congr fun text => ?_
  rw [mapError_eq_ok, mapError_eq_ok]

/-! ## Generating a header file -/

/-- Without a header, nothing is written. -/
theorem FileTree.run_generateFile_of_error {error : RunError}
    (h : readHeader tree style input = .error error) :
    (FileTree.access.generateFile style input output).run tree = (.error error, tree) := by
  apply run_bind_of_error
  rw [run_readHeader_eq, h]

/-- With a header, it is written, and a write that fails changes nothing. -/
theorem FileTree.run_generateFile_of_ok (h : readHeader tree style input = .ok header) :
    (FileTree.access.generateFile style input output).run tree =
      (ExceptT.adapt (RunError.write output) (FileTree.access.write output header)).run tree := by
  apply run_bind_of_ok
  rw [run_readHeader_eq, h]

/-- A write that succeeds changes the tree. -/
theorem FileTree.run_write_of_ok (h : tree.write output header.toUTF8 = .ok after) :
    (ExceptT.adapt (RunError.write output) (FileTree.access.write output header)).run tree =
      (.ok (), after) := by
  have hwrite : (FileTree.access.write output header).run tree = (.ok (), after) := by
    simp only [access, ExceptT.run_mk, h]
  exact congrArg (fun result => (result.1.mapError (RunError.write output), result.2)) hwrite

/-- A write that fails leaves the tree as it was. -/
theorem FileTree.run_write_of_error {cause : FileError}
    (h : tree.write output header.toUTF8 = .error cause) :
    (ExceptT.adapt (RunError.write output) (FileTree.access.write output header)).run tree =
      (.error (.write output cause), tree) := by
  have hwrite : (FileTree.access.write output header).run tree = (.error cause, tree) := by
    simp only [access, ExceptT.run_mk, h]
  exact congrArg (fun result => (result.1.mapError (RunError.write output), result.2)) hwrite

/-- What the generation of a header file ends with: success, with the header in its file and
nothing else changed, or failure, with all files as they were. -/
structure FileTree.Generates (tree : FileTree) (style : Naming.Style) (input output : String)
    (outcome : Except RunError Unit) (after : FileTree) : Prop where
  stored : ∀ header written, readHeader tree style input = .ok header →
    tree.write output header.toUTF8 = .ok written →
      outcome = .ok () ∧ after = written ∧ tree.Replaced output header after
  failed : (∀ header written, readHeader tree style input = .ok header →
      tree.write output header.toUTF8 ≠ .ok written) →
    (∃ error, outcome = .error error) ∧ after = tree

/-- The generation of a header file reads first, then makes the header, and writes in the end. -/
theorem FileTree.generates_run :
    tree.Generates style input output
      ((FileTree.access.generateFile style input output).run tree).1
      ((FileTree.access.generateFile style input output).run tree).2 := by
  cases hread : readHeader tree style input with
  | error error =>
    -- without a header nothing is written
    rw [run_generateFile_of_error hread]
    refine ⟨?_, fun _ => ⟨⟨error, rfl⟩, rfl⟩⟩
    intro header written hheader
    rw [hread] at hheader
    cases hheader
  | ok header =>
    rw [run_generateFile_of_ok hread]
    cases hwrite : tree.write output header.toUTF8 with
    | error cause =>
      -- a header that cannot be written leaves the tree as it was
      rw [run_write_of_error hwrite]
      refine ⟨?_, fun _ => ⟨⟨_, rfl⟩, rfl⟩⟩
      intro other written hother hwritten
      rcases Except.ok.inj (hread.symm.trans hother) with rfl
      rw [hwrite] at hwritten
      cases hwritten
    | ok after =>
      rw [run_write_of_ok hwrite]
      refine ⟨?_, fun hnone => absurd hwrite (hnone header after hread)⟩
      intro other written hother hwritten
      rcases Except.ok.inj (hread.symm.trans hother) with rfl
      rcases Except.ok.inj (hwrite.symm.trans hwritten) with rfl
      exact ⟨rfl, rfl, replaced_of_write hwrite⟩

theorem FileTree.run_generateFile_eq_ok :
    (FileTree.access.generateFile style input output).run tree = (.ok (), after) ↔
      generateFile tree style input output = .ok after := by
  unfold generateFile
  cases (FileTree.access.generateFile style input output).run tree with
  | mk outcome written =>
    cases outcome with
    | error error => exact ⟨fun h => (nomatch h), fun h => (nomatch h)⟩
    | ok =>
      constructor
      · rintro ⟨⟩
        rfl
      · intro h
        rcases Except.ok.inj h with rfl
        rfl

/-- A failure comes before any file is changed. -/
theorem FileTree.run_generateFile_of_eq_error {error : RunError}
    (h : generateFile tree style input output = .error error) :
    (FileTree.access.generateFile style input output).run tree = (.error error, tree) := by
  have hends : tree.Generates style input output _ _ := FileTree.generates_run
  unfold generateFile at h
  cases hrun : (FileTree.access.generateFile style input output).run tree with
  | mk outcome after =>
    rw [hrun] at h hends
    rcases map_eq_error.1 h with rfl
    have hsame : after = tree := by
      refine (hends.failed fun header written hheader hwrite => ?_).2
      cases (hends.stored header written hheader hwrite).1
    rw [hsame]

/-- The header is read first, and nothing is written without it. -/
theorem generateFile_eq :
    generateFile tree style input output = readHeader tree style input >>= fun header =>
      (tree.write output header.toUTF8).mapError (RunError.write output) := by
  unfold generateFile
  cases hread : readHeader tree style input with
  | error error =>
    rw [FileTree.run_generateFile_of_error hread]
    rfl
  | ok header =>
    rw [FileTree.run_generateFile_of_ok hread, ok_bind]
    cases hwrite : tree.write output header.toUTF8 with
    | error cause =>
      rw [FileTree.run_write_of_error hwrite]
      rfl
    | ok after =>
      rw [FileTree.run_write_of_ok hwrite]
      rfl

/-- A header file is generated when the manifest has a header and the header can be written. -/
theorem generateFile_eq_ok :
    generateFile tree style input output = .ok after ↔
      ∃ header, readHeader tree style input = .ok header ∧
        tree.write output header.toUTF8 = .ok after := by
  rw [generateFile_eq, bind_eq_ok]
  refine exists_congr fun header => ?_
  rw [mapError_eq_ok]

end

end XrManifest.Files
