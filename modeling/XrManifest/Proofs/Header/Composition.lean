import XrManifest.Proofs.Header.Nesting

/-!
# Headers put together

A header consists of its first two lines and, for each action set, a piece that depends on
this set and on the naming style only. So the header of two lists of sets is the header of
the first list with the pieces of the second below it. The main statement is
`Manifest.header_append`.
-/

namespace XrManifest

open XrManifest.Cpp XrManifest.Naming

/-! ## Texts of layouts -/

namespace Cpp.Layout

/-- Layouts below each other are rendered one after the other. -/
theorem render_append (above below : Layout) :
    (above ++ below).render = above.render ++ below.render := by
  have hlines : (above ++ below).lines 0 = above.lines 0 ++ below.lines 0 := rfl
  rw [render, hlines, unlines, List.flatMap_append, String.ofList_append]
  rfl

/-- The text of a stack is that of its layouts, one below the other. -/
theorem render_stack (layouts : List Layout) :
    (stack layouts).render = String.join (layouts.map render) := by
  induction layouts with
  | nil => rfl
  | cons layout layouts ih =>
    have hstack : stack (layout :: layouts) = layout ++ stack layouts := rfl
    rw [hstack, render_append, ih, List.map_cons, String.join_cons]

end Cpp.Layout

/-! ## Pieces -/

/-- The first two lines of every header. -/
def Header.preamble : String := "#pragma once\n\n"

/-- What a header has for an action set. -/
def Header.piece (style : Style) (set : ActionSet) : Except UnsupportedPath String :=
  (Plan.ofActionSet set).map fun plan => (SetStructs.ofPlan style plan).layout.render

namespace Manifest

open XrManifest.Header

variable {style : Style} {sets first second : List ActionSet}

/-- A header is its first two lines and the pieces of its sets, in order. -/
theorem header_eq_pieces (style : Style) (sets : List ActionSet) :
    header style ⟨sets⟩ =
      (sets.mapM (piece style)).map fun pieces => preamble ++ String.join pieces := by
  have hpieces : sets.mapM (piece style) = (sets.mapM Plan.ofActionSet).map fun plans =>
      plans.map fun plan => (SetStructs.ofPlan style plan).layout.render :=
    mapM_map _ _ sets
  rw [hpieces, header, Header.ofManifest]
  cases sets.mapM Plan.ofActionSet with
  | error error => rfl
  | ok plans =>
    have htext := Header.text_eq ⟨plans.map (SetStructs.ofPlan style)⟩
    rw [Layout.render_stack, List.map_map, List.map_map] at htext
    exact congrArg Except.ok htext

/-- A header fails with the first of its pieces that fails. -/
theorem header_eq_error_iff {error : UnsupportedPath} :
    header style ⟨sets⟩ = .error error ↔ sets.mapM (piece style) = .error error := by
  rw [header_eq_pieces, map_eq_error]

/-- A header is its first lines and a piece for each action set. -/
theorem header_eq_ok_iff {text : String} :
    header style ⟨sets⟩ = .ok text ↔
      ∃ pieces, sets.mapM (piece style) = .ok pieces ∧ text = preamble ++ String.join pieces := by
  rw [header_eq_pieces, map_eq_ok]
  simp only [eq_comm]

/-- The piece of a set is what its header has behind the first two lines when it is the only
set. -/
theorem header_singleton {set : ActionSet} {text : String} :
    header style ⟨[set]⟩ = .ok (preamble ++ text) ↔ piece style set = .ok text := by
  rw [header_eq_ok_iff]
  constructor
  · rintro ⟨pieces, hpieces, htext⟩
    obtain ⟨own, hown, rfl⟩ := forall₂_singleton_left_iff.1 (mapM_eq_ok.1 hpieces)
    have hsame : text = own := by simpa using htext
    rw [hsame, hown]
  · intro hown
    exact ⟨[text], mapM_eq_ok.2 (.cons hown .nil), by simp⟩

end Manifest

/-- Headers are put together from those of their sets. Two lists of sets have no header
together when one of them has none: the error of the first list comes first. Otherwise the
second header stands below the first without its first two lines. So a header has for each
set what the header of this set alone has, whatever the other sets are. -/
theorem Manifest.header_append (style : Style) (first second : List ActionSet) :
    (∀ error, header style ⟨first ++ second⟩ = .error error ↔
      header style ⟨first⟩ = .error error ∨
        (∃ above, header style ⟨first⟩ = .ok above) ∧ header style ⟨second⟩ = .error error) ∧
    (∀ above text, header style ⟨first⟩ = .ok above → header style ⟨second⟩ = .ok text →
      ∃ below, text = Header.preamble ++ below ∧
        header style ⟨first ++ second⟩ = .ok (above ++ below)) ∧
    ∀ sets text, header style ⟨sets⟩ = .ok text ↔
      ∃ pieces, List.Forall₂
          (fun set own => header style ⟨[set]⟩ = .ok (Header.preamble ++ own)) sets pieces ∧
        text = Header.preamble ++ String.join pieces := by
  refine ⟨fun error => ?_, fun above text habove htext => ?_, fun sets text => ?_⟩
  · rw [header_eq_error_iff, header_eq_error_iff, header_eq_error_iff, mapM_append_eq_error]
    -- a header is accepted where all its pieces are
    have hsucceeds : (∃ above, header style ⟨first⟩ = .ok above) ↔
        ∃ pieces, first.mapM (Header.piece style) = .ok pieces := by
      simp only [header_eq_ok_iff]
      exact ⟨fun ⟨_, pieces, hpieces, _⟩ => ⟨pieces, hpieces⟩,
        fun ⟨pieces, hpieces⟩ => ⟨_, pieces, hpieces, rfl⟩⟩
    rw [hsucceeds]
  · obtain ⟨pieces, hpieces, rfl⟩ := header_eq_ok_iff.1 habove
    obtain ⟨others, hothers, rfl⟩ := header_eq_ok_iff.1 htext
    refine ⟨String.join others, rfl, header_eq_ok_iff.2 ⟨pieces ++ others, ?_, ?_⟩⟩
    · rw [mapM_eq_ok] at hpieces hothers ⊢
      exact List.rel_append hpieces hothers
    · rw [String.join_append, String.append_assoc]
  -- the header of one set is the preamble and a piece
  · simp only [header_singleton]
    rw [header_eq_ok_iff]
    simp only [mapM_eq_ok]

/-- Two sets that have headers, and a third that binds its action to the head. -/
theorem Manifest.header_append_gaze :
    let play : ActionSet := ⟨"play", "Play", 0, [⟨"grab", "Grab", .float, true⟩],
      [⟨"/interaction_profiles/any", ⟨[("grab", ["/user/hand/left/squeeze"])], by decide⟩⟩]⟩
    let menu : ActionSet := ⟨"menu", "Menu", 1, [⟨"close", "Close", .boolean, false⟩], []⟩
    let gaze : ActionSet := ⟨"gaze", "Gaze", 2, [⟨"look", "Look", .pose, false⟩],
      [⟨"/interaction_profiles/any", ⟨[("look", ["/user/head/pose"])], by decide⟩⟩]⟩
    (∃ above below, header .pascal ⟨[play]⟩ = .ok above ∧
      header .pascal ⟨[menu]⟩ = .ok (Header.preamble ++ below) ∧
      header .pascal ⟨[play, menu]⟩ = .ok (above ++ below)) ∧
    header .pascal ⟨[play, gaze]⟩ = .error ⟨"/user/head/pose"⟩ := by
  intro play menu gaze
  obtain ⟨above, habove⟩ : ∃ above, header .pascal ⟨[play]⟩ = .ok above :=
    exists_header_singleton .pascal rfl
  obtain ⟨text, htext⟩ : ∃ text, header .pascal ⟨[menu]⟩ = .ok text :=
    exists_header_singleton .pascal rfl
  -- the gaze is bound under no hand, so its set has no header
  have hgaze : header .pascal ⟨[gaze]⟩ = .error ⟨"/user/head/pose"⟩ := rfl
  constructor
  · obtain ⟨below, rfl, hboth⟩ := (header_append .pascal [play] [menu]).2.1 above text habove htext
    exact ⟨above, below, habove, htext, hboth⟩
  · exact ((header_append .pascal [play] [gaze]).1 _).2 (.inr ⟨⟨above, habove⟩, hgaze⟩)

end XrManifest
