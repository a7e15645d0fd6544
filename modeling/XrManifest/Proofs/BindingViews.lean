import Mathlib.Data.List.Forall2
import Mathlib.Data.List.Sort
import XrManifest.Proofs.Derivation
import XrManifest.Proofs.Text.ByteOrder

/-!
# The views of suggested bindings

A set shows its suggested bindings in four ways: the paths of one action, the pairs of a
profile, the number of these pairs, and the paths that occur at all. They are views of the
same bindings, and the last one, which is in the order of bytes, does not see how a manifest
has arranged them. The main statement is `ActionSet.views_agree`.
-/

namespace XrManifest

/-! ## Rearrangements -/

/-- A list with its members moved, and then each member changed to a related one. -/
def RearrangedBy {α : Type} (related : α → α → Prop) (as bs : List α) : Prop :=
  ∃ moved, as.Perm moved ∧ List.Forall₂ related moved bs

/-- The same paths for the same actions, with the entries and the paths of each in another
order. -/
def Bindings.Rearranged (bindings other : Bindings) : Prop :=
  RearrangedBy (fun entry moved => entry.1 = moved.1 ∧ entry.2.Perm moved.2)
    bindings.entries other.entries

/-- The same profiles in another order, each with its bindings rearranged. -/
def ProfileBindings.Rearranged : List ProfileBindings → List ProfileBindings → Prop :=
  RearrangedBy fun suggested moved =>
    suggested.profile = moved.profile ∧ suggested.bindings.Rearranged moved.bindings

/-- What related members contribute, related lists do. -/
theorem mem_flatMap_of_rearranged {α β : Type} {related : α → α → Prop} {f : α → List β}
    (hf : ∀ a b, related a b → ∀ x, x ∈ f a ↔ x ∈ f b) {as bs : List α}
    (h : RearrangedBy related as bs) (x : β) : x ∈ as.flatMap f ↔ x ∈ bs.flatMap f := by
  obtain ⟨moved, hperm, hrelated⟩ := h
  have hmoved : x ∈ moved.flatMap f ↔ x ∈ bs.flatMap f := by
    clear hperm
    induction hrelated with
    | nil => rfl
    | cons hab _ ih =>
      simp only [List.flatMap_cons, List.mem_append]
      exact or_congr (hf _ _ hab x) ih
  rw [← hmoved]
  exact (hperm.flatMap_right f).mem_iff

namespace ActionSet

variable {set : ActionSet}

/-! ## Distinct paths -/

/-- The paths of a set are those of the pairs of its profiles. -/
theorem mem_distinctPaths_iff_pair {path : String} :
    path ∈ set.distinctPaths ↔
      ∃ suggested ∈ set.profiles, ∃ pair ∈ suggested.bindings.pairs, pair.2 = path := by
  rw [mem_distinctPaths]
  constructor
  · intro h
    obtain ⟨suggested, hsuggested, hmem⟩ := List.mem_flatMap.1 h
    obtain ⟨entry, hentry, hpath⟩ := List.mem_flatMap.1 hmem
    refine ⟨suggested, hsuggested, (entry.1, path), ?_, rfl⟩
    exact List.mem_flatMap.2 ⟨entry, hentry, List.mem_map.2 ⟨path, hpath, rfl⟩⟩
  · rintro ⟨suggested, hsuggested, pair, hpair, rfl⟩
    exact mem_allPaths_of_pair hsuggested hpair

/-- Sorted without repeats, the paths are strictly increasing. -/
theorem pairwise_distinctPaths : set.distinctPaths.Pairwise (· < ·) := by
  have hsorted : set.distinctPaths.Pairwise (· ≤ ·) :=
    List.pairwise_mergeSort' (· ≤ ·) (firstOccurrences set.allPaths)
  have hboth := hsorted.and nodup_distinctPaths
  exact hboth.imp fun h => lt_of_le_of_ne h.1 h.2

/-- The paths of a set depend on which paths occur in it. -/
theorem distinctPaths_congr {other : ActionSet}
    (h : ∀ path, path ∈ other.allPaths ↔ path ∈ set.allPaths) :
    other.distinctPaths = set.distinctPaths := by
  have hperm : other.distinctPaths.Perm set.distinctPaths := by
    rw [List.perm_ext_iff_of_nodup nodup_distinctPaths nodup_distinctPaths]
    intro path
    rw [mem_distinctPaths, mem_distinctPaths, h]
  exact hperm.eq_of_pairwise (fun _ _ _ _ hlt hgt => absurd hgt (lt_asymm hlt))
    pairwise_distinctPaths pairwise_distinctPaths

/-- Rearranged profiles suggest the same paths. -/
theorem mem_allPaths_of_rearranged {other : ActionSet}
    (h : ProfileBindings.Rearranged set.profiles other.profiles) (path : String) :
    path ∈ set.allPaths ↔ path ∈ other.allPaths := by
  apply mem_flatMap_of_rearranged _ h
  rintro suggested moved ⟨-, hbindings⟩
  exact mem_flatMap_of_rearranged (fun _ _ hentry _ => hentry.2.mem_iff) hbindings

/-! ## Agreement -/

/-- The views of a set's bindings agree. The paths of an action are those of its pairs, profile
by profile; a profile counts its pairs; the distinct paths are strictly increasing in the order
of their bytes and are the paths of the pairs; and they stay the same where profiles, entries
and paths are put in another order. -/
theorem views_agree (set : ActionSet) :
    (∀ action, set.pathsOf action =
      set.profiles.flatMap fun suggested =>
        (suggested.bindings.pairs.filter fun pair => pair.1 = action).map Prod.snd) ∧
    (∀ suggested ∈ set.profiles, suggested.bindings.count = suggested.bindings.pairs.length) ∧
    (set.distinctPaths.Pairwise fun path later => Text.utf8 path < Text.utf8 later) ∧
    (∀ path, path ∈ set.distinctPaths ↔
      ∃ suggested ∈ set.profiles, ∃ pair ∈ suggested.bindings.pairs, pair.2 = path) ∧
    ∀ other : ActionSet, ProfileBindings.Rearranged set.profiles other.profiles →
      other.distinctPaths = set.distinctPaths := by
  refine ⟨set.pathsOf_eq, ?_, ?_, fun path => mem_distinctPaths_iff_pair, ?_⟩
  · intro suggested _
    exact suggested.bindings.length_pairs.symm
  · exact pairwise_distinctPaths.imp Text.utf8_lt_utf8.2
  · intro other hother
    exact distinctPaths_congr fun path => (mem_allPaths_of_rearranged hother path).symm

/-- Two profiles that share a path, and the same two with everything in another order. -/
theorem views_agree_twoProfiles :
    ∃ set other : ActionSet, ProfileBindings.Rearranged set.profiles other.profiles ∧
      set.profiles ≠ other.profiles ∧ other.distinctPaths = set.distinctPaths ∧
      (∀ suggested ∈ set.profiles,
        suggested.bindings.count = suggested.bindings.pairs.length) := by
  let simple : ProfileBindings :=
    ⟨"simple", ⟨[("grab", ["/b", "/a"]), ("quit", ["/c"])], by decide⟩⟩
  let moved : ProfileBindings :=
    ⟨"simple", ⟨[("quit", ["/c"]), ("grab", ["/a", "/b"])], by decide⟩⟩
  let touch : ProfileBindings := ⟨"touch", ⟨[("grab", ["/a"])], by decide⟩⟩
  let set : ActionSet := ⟨"play", "Play", 0, [], [simple, touch]⟩
  let other : ActionSet := ⟨"play", "Play", 0, [], [touch, moved]⟩
  have hmoved : simple.bindings.Rearranged moved.bindings :=
    ⟨[("quit", ["/c"]), ("grab", ["/b", "/a"])], .swap _ _ _,
      .cons ⟨rfl, .refl _⟩ (.cons ⟨rfl, .swap _ _ _⟩ .nil)⟩
  have htouch : touch.bindings.Rearranged touch.bindings :=
    ⟨[("grab", ["/a"])], .refl _, .cons ⟨rfl, .refl _⟩ .nil⟩
  -- the profiles change places, and the bindings of the moved one do
  have hother : ProfileBindings.Rearranged set.profiles other.profiles :=
    ⟨[touch, simple], .swap _ _ _, .cons ⟨rfl, htouch⟩ (.cons ⟨rfl, hmoved⟩ .nil)⟩
  obtain ⟨-, hcount, -, -, hsame⟩ := views_agree set
  exact ⟨set, other, hother, by decide, hsame other hother, hcount⟩

end ActionSet
end XrManifest
