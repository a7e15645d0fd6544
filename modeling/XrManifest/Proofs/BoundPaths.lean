import XrManifest.Proofs.Plan

/-!
# Paths that are bound to actions

An action set binds an action to a path when some profile suggests the path for it. The
hands of an action are those of the paths it is bound to, and they are known when each of
these paths belongs to a hand. The main statements are `ActionSet.handsOf_eq_ok` and
`ActionSet.handsOf_eq_error`.
-/

namespace XrManifest

/-! ## Bindings -/

namespace Bindings

variable {bindings : Bindings} {action path : String}

/-- An entry is found under its action, since no other entry is for this action. -/
theorem lookup_entries {paths : List String} (h : (action, paths) ∈ bindings.entries) :
    bindings.entries.lookup action = some paths := by
  have hnodup := bindings.nodup_actions
  generalize bindings.entries = entries at h hnodup
  induction entries with
  | nil => cases h
  | cons entry entries ih =>
    rw [List.map_cons, List.nodup_cons] at hnodup
    rcases List.mem_cons.1 h with rfl | hlater
    · exact List.lookup_cons_self
    · have hother : action ≠ entry.1 := by
        intro hsame
        apply hnodup.1
        exact List.mem_map.2 ⟨_, hlater, hsame⟩
      have htest : (action == entry.1) = false := beq_eq_false_iff_ne.2 hother
      rw [List.lookup_cons, htest]
      exact ih hlater hnodup.2

/-- The paths of an action are those of the pairs that it is in. -/
theorem mem_paths : path ∈ bindings.paths action ↔ (action, path) ∈ bindings.pairs := by
  unfold paths pairs
  constructor
  · intro h
    cases hlookup : bindings.entries.lookup action with
    | none =>
      rw [hlookup] at h
      cases h
    | some found =>
      rw [hlookup, Option.getD_some] at h
      obtain ⟨before, after, hentries, -⟩ := List.lookup_eq_some_iff.1 hlookup
      have hentry : (action, found) ∈ bindings.entries := by simp [hentries]
      exact List.mem_flatMap.2 ⟨_, hentry, List.mem_map.2 ⟨path, h, rfl⟩⟩
  · intro h
    obtain ⟨entry, hentry, hpair⟩ := List.mem_flatMap.1 h
    -- the entry of the pair is the one that is looked up, since no action has two
    obtain ⟨found, hfound, hsame⟩ := List.mem_map.1 hpair
    obtain ⟨rfl, rfl⟩ := Prod.mk.inj hsame
    rw [lookup_entries hentry, Option.getD_some]
    exact hfound

end Bindings

namespace ActionSet

variable {set : ActionSet} {action path : String}

/-- Some profile suggests the path for the action. -/
def Binds (set : ActionSet) (action path : String) : Prop :=
  ∃ suggested ∈ set.profiles, (action, path) ∈ suggested.bindings.pairs

theorem mem_pathsOf : path ∈ set.pathsOf action ↔ set.Binds action path := by
  unfold pathsOf Binds
  simp only [List.mem_flatMap, Bindings.mem_paths]

/-- A path that is bound to an action is a binding path of the set. -/
theorem Binds.mem_allPaths (h : set.Binds action path) : path ∈ set.allPaths := by
  obtain ⟨suggested, hsuggested, hpair⟩ := h
  exact mem_allPaths_of_pair hsuggested hpair

end ActionSet

/-! ## Hands of paths -/

namespace Hand

variable {path : String} {hand : Hand}

/-- No path belongs to both hands. -/
theorem owns_unique {other : Hand} (h : hand.owns path = true) (hother : other.owns path = true) :
    hand = other := by
  unfold owns at h hother
  rw [List.isPrefixOf_iff_prefix] at h hother
  have hroot : ∀ first second : Hand,
      first.userPath.toList ++ ['/'] <+: second.userPath.toList ++ ['/'] → first = second := by
    intro first second
    cases first <;> cases second <;> decide +kernel
  rcases List.prefix_or_prefix_of_prefix h hother with hprefix | hprefix
  · exact hroot _ _ hprefix
  · exact (hroot _ _ hprefix).symm

theorem mem_all (hand : Hand) : hand ∈ all := by
  cases hand <;> decide

/-- A path is taken for the hand that owns it, and for no other. -/
theorem ofPath_eq_ok : ofPath path = .ok hand ↔ hand.owns path = true := by
  unfold ofPath
  cases hfound : all.find? (·.owns path) with
  | some found =>
    have hfound' : found.owns path = true := by simpa using List.find?_some hfound
    constructor
    · intro h
      rcases Except.ok.inj h with rfl
      exact hfound'
    · intro h
      rw [owns_unique h hfound']
  | none =>
    have hnone := List.find?_eq_none.1 hfound hand (mem_all hand)
    simp [hnone]

/-- A path is refused, and named, exactly when neither hand owns it. -/
theorem ofPath_eq_error {error : UnsupportedPath} :
    ofPath path = .error error ↔ error = ⟨path⟩ ∧ ∀ hand : Hand, hand.owns path = false := by
  unfold ofPath
  cases hfound : all.find? (·.owns path) with
  | some found =>
    have hfound' : found.owns path = true := by simpa using List.find?_some hfound
    constructor
    · intro h
      cases h
    · intro h
      simp [h.2 found] at hfound'
  | none =>
    have hnone : ∀ hand : Hand, hand.owns path = false := by
      intro hand
      simpa using List.find?_eq_none.1 hfound hand (mem_all hand)
    constructor
    · intro h
      exact ⟨(Except.error.inj h).symm, hnone⟩
    · intro h
      rw [h.1]

end Hand

/-! ## Hands of actions -/

namespace ActionSet

variable {set : ActionSet} {action : String}

/-- The hands of an action are those that own a path it is bound to, each once. -/
theorem handsOf_eq_ok {hands : List Hand} (h : set.handsOf action = .ok hands) :
    hands.Nodup ∧
      ∀ hand, hand ∈ hands ↔ ∃ path, set.Binds action path ∧ hand.owns path = true := by
  obtain ⟨found, hfound, hfirst⟩ := bind_eq_ok.1 h
  rcases Except.ok.inj hfirst with rfl
  refine ⟨nodup_firstOccurrences found, ?_⟩
  intro hand
  rw [mem_firstOccurrences]
  constructor
  · intro hmem
    obtain ⟨path, hpath, hof⟩ := exists_step_of_mapM hfound hmem
    exact ⟨path, mem_pathsOf.1 hpath, Hand.ofPath_eq_ok.1 hof⟩
  · rintro ⟨path, hbinds, howns⟩
    obtain ⟨other, hother, hof⟩ := exists_result_of_mapM hfound (mem_pathsOf.2 hbinds)
    have hsame : hand = other := Hand.owns_unique howns (Hand.ofPath_eq_ok.1 hof)
    rwa [hsame]

/-- When the hands are not known, the action is bound to a path of no hand. -/
theorem handsOf_eq_error {error : UnsupportedPath} (h : set.handsOf action = .error error) :
    set.Binds action error.path ∧ ∀ hand : Hand, hand.owns error.path = false := by
  rcases bind_eq_error.1 h with hpaths | ⟨found, -, hfirst⟩
  · obtain ⟨path, hpath, hof⟩ := exists_failure_of_mapM hpaths
    obtain ⟨rfl, hnone⟩ := Hand.ofPath_eq_error.1 hof
    exact ⟨mem_pathsOf.1 hpath, hnone⟩
  · cases hfirst

/-- When the hands are known, every path that the action is bound to belongs to one. -/
theorem owned_of_handsOf {hands : List Hand} (h : set.handsOf action = .ok hands) {path : String}
    (hbinds : set.Binds action path) : ∃ hand : Hand, hand.owns path = true := by
  obtain ⟨found, hfound, -⟩ := bind_eq_ok.1 h
  obtain ⟨hand, -, hof⟩ := exists_result_of_mapM hfound (mem_pathsOf.2 hbinds)
  exact ⟨hand, Hand.ofPath_eq_ok.1 hof⟩

end ActionSet
end XrManifest
