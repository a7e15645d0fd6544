import XrManifest.Proofs.Files.Writing

/-!
# Where the header of a manifest goes

A manifest that can be read has a name at the end of its path. Its header goes into the same
directory, and takes the place of the manifest just when it has the same name. The main
statement is `FileTree.readBytes_headerPath`.
-/

namespace XrManifest.Files

/-! ## Names at the end of paths -/

/-- The text in front of a name: segments, each with the slash behind it. -/
def joined (parents : List (List Char)) : List Char :=
  parents.flatMap fun segment => segment ++ ['/']

theorem joined_cons (segment : List Char) (parents : List (List Char)) :
    joined (segment :: parents) = segment ++ '/' :: joined parents := by
  rw [joined, List.flatMap_cons, List.append_assoc]
  rfl

/-- A path consists of segments and of a last one, its name. -/
structure Ends (path : List Char) (parents : List (List Char)) (name : List Char) : Prop where
  text : path = joined parents ++ name
  parents : ∀ segment ∈ parents, '/' ∉ segment
  name : '/' ∉ name

/-- Every path has a last segment, which may be empty. -/
theorem exists_ends (path : List Char) : ∃ parents name, Ends path parents name := by
  induction path with
  | nil => exact ⟨[], [], rfl, by simp, by simp⟩
  | cons c path ih =>
    obtain ⟨parents, name, rfl, hparents, hname⟩ := ih
    by_cases hslash : c = '/'
    · -- an empty segment comes first
      refine ⟨[] :: parents, name, ?_, ?_, hname⟩
      · rw [joined_cons, hslash]
        rfl
      · simpa using hparents
    · -- the character belongs to the first segment
      cases parents with
      | nil => exact ⟨[], c :: name, rfl, by simp, by simp [Ne.symm hslash, hname]⟩
      | cons segment parents =>
        refine ⟨(c :: segment) :: parents, name, ?_, ?_, hname⟩
        · simp [joined_cons]
        · simp only [List.forall_mem_cons] at hparents ⊢
          exact ⟨by simp [Ne.symm hslash, hparents.1], hparents.2⟩

theorem segments_of_not_mem {segment : List Char} (h : '/' ∉ segment) :
    segments segment = [segment] := by
  rw [segments, List.splitOnP_eq_singleton]
  intro c hc
  simp only [decide_eq_false_iff_not]
  rintro rfl
  exact h hc

/-- A path that does not start with a slash starts at the current directory. -/
theorem startOf_of_ne (tree : FileTree) {c : Char} (h : c ≠ '/') (rest : List Char) :
    tree.startOf (c :: rest) = tree.current := by
  unfold FileTree.startOf
  split
  · next heq => exact absurd (List.cons.inj heq).1 h
  · rfl

namespace Ends

variable {path name other : List Char} {parents : List (List Char)}

/-- The segments of a path are those in front of its name, and the name. -/
theorem segments_eq (h : Ends path parents name) : segments path = parents ++ [name] := by
  obtain ⟨rfl, hparents, hname⟩ := h
  induction parents with
  | nil => exact segments_of_not_mem hname
  | cons segment parents ih =>
    rw [List.forall_mem_cons] at hparents
    have hfirst := segments_of_not_mem hparents.1
    rw [joined_cons, List.append_assoc, List.cons_append]
    unfold segments at hfirst ih ⊢
    rw [List.splitOnP_append_cons _ _ (by simp), hfirst, ih hparents.2]
    rfl

theorem reverse_segments (h : Ends path parents name) :
    (segments path).reverse = name :: parents.reverse := by
  rw [h.segments_eq, List.reverse_append]
  rfl

/-- A path has one name. -/
theorem name_unique {others : List (List Char)} (h : Ends path parents name)
    (hother : Ends path others other) : name = other := by
  have hsegments := h.segments_eq.symm.trans hother.segments_eq
  exact List.singleton_inj.1 (List.append_inj' hsegments rfl).2

/-- Another name can stand in the place of a name. -/
theorem rename (h : Ends path parents name) (hother : '/' ∉ other) :
    Ends (joined parents ++ other) parents other :=
  ⟨rfl, h.parents, hother⟩

/-- The directory at which a path starts does not depend on its name. -/
theorem startOf_eq (tree : FileTree) (h : Ends path parents name) :
    tree.startOf path = tree.startOf (joined parents) := by
  rw [h.text]
  cases hfront : joined parents with
  | nil =>
    cases hname : name with
    | nil => rfl
    | cons c rest =>
      have hslash : c ≠ '/' := by
        rintro rfl
        exact h.name (hname ▸ List.mem_cons_self)
      exact startOf_of_ne tree hslash rest
  | cons c front =>
    by_cases hslash : c = '/'
    · rw [hslash]
      rfl
    · rw [List.cons_append, startOf_of_ne tree hslash, startOf_of_ne tree hslash]

end Ends

/-! ## Names of headers -/

section
variable {stem extension name : List Char}

/-- An extension is found from the end of a name, up to its dot. -/
theorem dropWhile_extension (stem : List Char) (h : '.' ∉ extension) :
    (stem ++ '.' :: extension).reverse.dropWhile (· ≠ '.') = '.' :: stem.reverse := by
  have hreverse : (stem ++ '.' :: extension).reverse =
      extension.reverse ++ '.' :: stem.reverse := by
    simp
  have hpassed : ∀ c ∈ extension.reverse, decide (c ≠ '.') = true := by
    intro c hc
    simp only [decide_eq_true_eq]
    rintro rfl
    exact h (List.mem_reverse.1 hc)
  rw [hreverse, List.dropWhile_append_of_pos hpassed, List.dropWhile_cons_of_neg (by simp)]

/-- The extension is what stands behind the last dot, unless this is the first character. -/
theorem splitExtension_append (hstem : stem ≠ []) (hextension : '.' ∉ extension) :
    splitExtension (stem ++ '.' :: extension) = (stem, some extension) := by
  have htaken : (stem ++ '.' :: extension).reverse.takeWhile (· ≠ '.') = extension.reverse := by
    have hparts := List.takeWhile_append_dropWhile
      (p := (· ≠ '.')) (l := (stem ++ '.' :: extension).reverse)
    rw [dropWhile_extension stem hextension] at hparts
    apply List.append_cancel_right (hparts.trans _)
    simp
  obtain ⟨c, rest, hlast⟩ := List.exists_cons_of_ne_nil (List.reverse_ne_nil_iff.2 hstem)
  unfold splitExtension
  rw [dropWhile_extension stem hextension, htaken, hlast]
  simp only
  rw [← hlast, List.reverse_reverse, List.reverse_reverse]

/-- A name without an extension is its own stem. -/
theorem splitExtension_cases (name : List Char) :
    splitExtension name = (name, none) ∨
      ∃ stem extension, name = stem ++ '.' :: extension ∧ stem ≠ [] ∧
        splitExtension name = (stem, some extension) := by
  by_cases hdot : '.' ∈ name
  · obtain ⟨behind, before, hreverse, hbehind⟩ :=
      List.eq_append_cons_of_mem (List.mem_reverse.2 hdot)
    have hname : name = before.reverse ++ '.' :: behind.reverse := by
      rw [← List.reverse_reverse name, hreverse]
      simp
    have hextension : '.' ∉ behind.reverse := by simpa using hbehind
    -- a dot in front is no start of an extension
    by_cases hfirst : before = []
    · left
      have hdropped := dropWhile_extension before.reverse hextension
      rw [← hname, hfirst] at hdropped
      unfold splitExtension
      rw [hdropped]
      rfl
    · right
      have hstem : before.reverse ≠ [] := List.reverse_ne_nil_iff.2 hfirst
      refine ⟨_, _, hname, hstem, ?_⟩
      rw [hname]
      exact splitExtension_append hstem hextension
  · left
    have hdropped : name.reverse.dropWhile (· ≠ '.') = [] := by
      rw [List.dropWhile_eq_nil_iff]
      intro c hc
      simp only [decide_eq_true_eq]
      rintro rfl
      exact hdot (List.mem_reverse.1 hc)
    unfold splitExtension
    rw [hdropped]

/-- The name of the header of a manifest, when this is what its path leads to. -/
def headerName (name : List Char) : List Char :=
  if name = ['.', '.'] ∨ (splitExtension name).1 = ['.'] ∧ (splitExtension name).2.isSome then
    ['.', '.']
  else (splitExtension name).1 ++ ['.', 'h']

/-- The header of a manifest stands beside it. -/
theorem headerPath_of_ends {path : String} {parents : List (List Char)}
    (h : Ends path.toList parents name) (hname : isVoid name = false) :
    headerPath path = String.ofList (joined parents ++ headerName name) := by
  have hcut : cut? path.toList = some ⟨joined parents, name, false⟩ := by
    unfold cut?
    rw [h.reverse_segments, List.dropWhile_cons_of_neg (by simp [hname])]
    simp [joined, h.segments_eq]
  unfold headerPath headerName
  rw [hcut]
  by_cases hdots : name = ['.', '.']
  · simp only [hdots, if_true, true_or]
    rw [← hdots, ← h.text, String.ofList_toList]
  · simp only [hdots, if_false, false_or, Bool.false_eq_true, not_false_eq_true, and_true]
    split
    · rfl
    · rw [List.append_assoc]

/-- A path is that of a header already when its name is. -/
theorem headerPath_eq_self {path : String} {parents : List (List Char)}
    (h : Ends path.toList parents name) (hname : isVoid name = false) :
    headerPath path = path ↔ headerName name = name := by
  rw [headerPath_of_ends h hname, ← String.toList_inj, String.toList_ofList]
  exact (Eq.congr_right h.text).trans (List.append_right_inj _)

/-- The name of a header is one segment. -/
theorem slash_notMem_headerName (h : '/' ∉ name) : '/' ∉ headerName name := by
  unfold headerName
  rcases splitExtension_cases name with hname | ⟨stem, extension, hname, -, hsplit⟩
  · rw [hname]
    split <;> simp [h]
  · rw [hsplit]
    rw [hname] at h
    simp only [List.mem_append, not_or] at h
    split <;> simp [h.1]

theorem isVoid_headerName (name : List Char) : isVoid (headerName name) = false := by
  unfold headerName
  split
  · rfl
  · cases (splitExtension name).1 with
    | nil => rfl
    | cons c rest => simp [isVoid]

/-- The names that a manifest shares with its header: they have `h` as extension, and their
stem is more than a dot. -/
theorem headerName_eq_self (hdots : name ≠ ['.', '.']) :
    headerName name = name ↔
      ∃ stem, name = stem ++ ['.', 'h'] ∧ stem ≠ [] ∧ stem ≠ ['.'] := by
  constructor
  · intro hsame
    unfold headerName at hsame
    rcases splitExtension_cases name with hname | ⟨stem, extension, hname, hstem, hsplit⟩
    · simp [hname, hdots] at hsame
    · rw [hsplit] at hsame
      -- without its extension the name of two dots leads out of the directory
      by_cases hdot : stem = ['.']
      · simp only [hdot, Option.isSome_some, and_self, or_true, if_true] at hsame
        exact absurd hsame.symm hdots
      · simp only [hdot, hdots, false_and, or_self, if_false] at hsame
        exact ⟨stem, hsame.symm, hstem, hdot⟩
  · rintro ⟨stem, rfl, hstem, hdot⟩
    unfold headerName
    rw [splitExtension_append hstem (by decide)]
    simp [hdot, hdots]

end

/-- The last name of a path is that of a header: it has `h` as extension, and its stem is more
than a dot. -/
def NamesHeader (path : String) : Prop :=
  ∃ parents stem, Ends path.toList parents (stem ++ ['.', 'h']) ∧ stem ≠ [] ∧ stem ≠ ['.']

/-! ## Places of headers -/

namespace FileTree

variable {tree after : FileTree} {place target : Place} {path : String}
  {content header : ByteArray} {parents : List (List Char)} {name : List Char}

/-- A name leads to an entry of a directory, or out of it. -/
theorem target_of_follow (hname : isVoid name = false)
    (h : tree.follow place name = .ok target) :
    target = if name = ['.', '.'] then place.dropLast else place ++ [String.ofList name] := by
  have hdirectory := directory_of_follow h
  unfold follow at h
  rw [hdirectory] at h
  simp only [hname, Bool.false_eq_true, if_false] at h
  split at h
  · next hdots =>
    rw [if_pos hdots]
    exact (Except.ok.inj h).symm
  · next hdots =>
    rw [if_neg hdots]
    split at h
    · cases h
    · exact (Except.ok.inj h).symm

/-- A segment that leads nowhere leads to a directory. -/
theorem isVoid_eq_false (h : tree.follow place name = .ok target)
    (htarget : tree.entry? target ≠ some .directory) : isVoid name = false := by
  rw [Bool.eq_false_iff]
  intro hvoid
  have hdirectory := directory_of_follow h
  unfold follow at h
  rw [hdirectory] at h
  simp only [hvoid, if_true] at h
  rw [← Except.ok.inj h] at htarget
  exact htarget hdirectory

/-- In a directory, the header takes the place of the manifest just when it has its name. -/
theorem follow_headerName {directory : Place} (hname : isVoid name = false)
    (hmanifest : tree.follow directory name = .ok place)
    (hheader : tree.follow directory (headerName name) = .ok target) :
    place = target ↔ headerName name = name := by
  constructor
  · rintro rfl
    have hfrom := target_of_follow hname hmanifest
    have hto := target_of_follow (isVoid_headerName name) hheader
    by_cases hdots : name = ['.', '.']
    · simp [headerName, hdots]
    · rw [if_neg hdots] at hfrom
      rw [hfrom] at hto
      by_cases hup : headerName name = ['.', '.']
      · -- the directory around is not in the directory
        rw [if_pos hup] at hto
        have hlength := congrArg List.length hto
        simp only [List.length_dropLast, List.length_append, List.length_singleton] at hlength
        omega
      · rw [if_neg hup] at hto
        have hnames := List.singleton_inj.1 (List.append_cancel_left hto)
        exact (String.ofList_injective hnames).symm
  · intro heq
    rw [heq] at hheader
    exact Except.ok.inj (hmanifest.symm.trans hheader)

/-- The name comes last when a path is followed. -/
theorem foldlM_ends (h : Ends path.toList parents name) :
    (segments path.toList).foldlM tree.follow (tree.startOf path.toList) = .ok target ↔
      ∃ directory, parents.foldlM tree.follow (tree.startOf (joined parents)) = .ok directory ∧
        tree.follow directory name = .ok target := by
  rw [h.segments_eq, h.startOf_eq, List.foldlM_append, bind_eq_ok]
  refine exists_congr fun directory => and_congr_right fun _ => ?_
  rw [List.foldlM_cons, bind_eq_ok]
  simp only [List.foldlM_nil]
  constructor
  · rintro ⟨next, hnext, hdone⟩
    rw [← Except.ok.inj hdone]
    exact hnext
  · intro hnext
    exact ⟨target, hnext, rfl⟩

/-- A path that does not end in a slash is followed to its name. -/
theorem segmentsToWrite_of_ends (h : Ends path.toList parents name) (hname : name ≠ []) :
    segmentsToWrite (segments path.toList) = segments path.toList := by
  unfold segmentsToWrite
  rw [h.reverse_segments, List.dropWhile_cons_of_neg (by simpa using hname)]
  simp [h.segments_eq]

/-- A path that leads to a file has a name at its end. -/
theorem exists_name
    (hfollow : (segments path.toList).foldlM tree.follow (tree.startOf path.toList) = .ok place)
    (hplace : tree.entry? place ≠ some .directory) :
    ∃ parents name directory, Ends path.toList parents name ∧ isVoid name = false ∧
      parents.foldlM tree.follow (tree.startOf (joined parents)) = .ok directory ∧
      tree.follow directory name = .ok place := by
  obtain ⟨parents, name, hends⟩ := exists_ends path.toList
  obtain ⟨directory, hparents, hlast⟩ := (foldlM_ends hends).1 hfollow
  exact ⟨parents, name, directory, hends, isVoid_eq_false hlast hplace, hparents, hlast⟩

/-- The header goes where the manifest is just when their paths are the same. -/
theorem placeToWrite_headerPath
    (hfollow : (segments path.toList).foldlM tree.follow (tree.startOf path.toList) = .ok place)
    (hplace : tree.entry? place ≠ some .directory)
    (htarget : tree.placeToWrite (headerPath path) = .ok target) :
    place = target ↔ headerPath path = path := by
  obtain ⟨parents, name, directory, hends, hname, hparents, hlast⟩ := exists_name hfollow hplace
  have hself := headerPath_eq_self hends hname
  -- the path of the header leads through the same directory
  have hrenamed : Ends (headerPath path).toList parents (headerName name) := by
    rw [headerPath_of_ends hends hname, String.toList_ofList]
    exact hends.rename (slash_notMem_headerName hends.name)
  have hnonempty : headerName name ≠ [] := by
    intro hnil
    have hheader := isVoid_headerName name
    rw [hnil] at hheader
    cases hheader
  obtain ⟨-, -, hwritten, -⟩ := placeToWrite_eq_ok htarget
  rw [segmentsToWrite_of_ends hrenamed hnonempty] at hwritten
  obtain ⟨around, haround, hwrite⟩ := (foldlM_ends hrenamed).1 hwritten
  have hsame : around = directory := Except.ok.inj (haround.symm.trans hparents)
  rw [hsame] at hwrite
  exact (follow_headerName hname hlast hwrite).trans hself.symm

/-- In a rooted tree, a manifest that is read has the path of its header just when it is named
like one. -/
theorem Rooted.headerPath_eq_self (htree : tree.Rooted)
    (hread : tree.readBytes path = .ok content) : headerPath path = path ↔ NamesHeader path := by
  obtain ⟨-, place, hfollow, hentry⟩ := readBytes_eq_ok.1 hread
  have hplace : tree.entry? place ≠ some .directory := by simp [hentry]
  obtain ⟨parents, name, directory, hends, hname, -, hlast⟩ := exists_name hfollow hplace
  have hdots : name ≠ ['.', '.'] := by
    intro hdots
    exact hplace (htree.follow_dots (.inr hdots) hlast)
  rw [Files.headerPath_eq_self hends hname, headerName_eq_self hdots]
  constructor
  · rintro ⟨stem, rfl, hstem, hdot⟩
    exact ⟨parents, stem, hends, hstem, hdot⟩
  · rintro ⟨others, stem, hother, hstem, hdot⟩
    exact ⟨stem, hends.name_unique hother, hstem, hdot⟩

/-- A header that is written beside its manifest leaves the manifest as it was, or takes its
place. -/
theorem readBytes_headerPath (hread : tree.readBytes path = .ok content)
    (hwrite : tree.write (headerPath path) header = .ok after) :
    after.readBytes path = .ok (if headerPath path = path then header else content) := by
  obtain ⟨hchecked, place, hfollow, hentry⟩ := readBytes_eq_ok.1 hread
  obtain ⟨target, htarget, rfl⟩ := write_eq_ok hwrite
  have hplace : tree.entry? place ≠ some .directory := by simp [hentry]
  have hsame := placeToWrite_headerPath hfollow hplace htarget
  have hdirectory := (placeToWrite_eq_ok htarget).2.2.2
  refine readBytes_eq_ok.2 ⟨hchecked, place, foldlM_follow_store hdirectory _ hfollow, ?_⟩
  rw [entry?_store, hentry]
  simp only [hsame]
  split <;> rfl

end FileTree

end XrManifest.Files
