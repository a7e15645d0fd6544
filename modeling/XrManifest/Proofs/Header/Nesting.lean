import XrManifest.Proofs.Header.Generation
import XrManifest.Proofs.Header.PlainCode

/-!
# The nesting of a header

Whatever texts a manifest has, its header is well nested. The main statement is
`Manifest.header_nested`.
-/

namespace XrManifest

open XrManifest.Cpp XrManifest.Naming

variable {style : Style} {manifest : Manifest}

namespace Header

/-- The structs of a set fit at every depth. -/
theorem SetStructs.fits (plan : Plan) : (SetStructs.ofPlan style plan).layout.Fits := by
  refine .stack fun struct hstruct => ?_
  have hplain := SetStructs.plain hstruct
  exact .append .blank hplain.fits

/-- The lines of a header fit one below the other. -/
theorem fits {header : Header} (h : ofManifest style manifest = .ok header) :
    header.layout.Fits := by
  obtain ⟨plans, -, hsets⟩ := ofManifest_eq_ok.1 h
  have hpragma : LineText "#pragma once" := (Leading.opening (by decide)).lineText
  refine .append (.append (.line hpragma) .blank) (.stack ?_)
  intro structs hstructs
  rw [hsets] at hstructs
  obtain ⟨plan, -, rfl⟩ := List.mem_map.1 hstructs
  exact SetStructs.fits plan

/-- A header starts with the pragma and an empty line. -/
theorem text_eq (header : Header) :
    header.text = "#pragma once\n\n" ++
      (Layout.stack (header.sets.map SetStructs.layout)).render := by
  have hfront : "#pragma once\n\n" = String.ofList ("#pragma once".toList ++ ['\n', '\n']) := rfl
  have hlines : header.layout.lines 0 =
      "#pragma once".toList :: [] :: (Layout.stack (header.sets.map SetStructs.layout)).lines 0 :=
    rfl
  rw [hfront, text, Layout.render, Layout.render, hlines, ← String.ofList_append]
  simp [Layout.unlines]

/-- A header ends in a line break. -/
theorem text_ends (header : Header) : ∃ front, header.text = front ++ "\n" :=
  Layout.render_ends (List.cons_ne_nil _ _)

end Header

/-- A header is not a manifest: no value starts like it. -/
theorem Manifest.read_header_ne_ok {text : String} (h : manifest.header style = .ok text)
    (other : Manifest) : read text ≠ .ok other := by
  obtain ⟨header, -, rfl⟩ := header_eq_ok.1 h
  intro hread
  obtain ⟨document, hdocument, -⟩ := bind_eq_ok.1 hread
  have htext := mapError_eq_ok.1 (mapError_eq_ok.1 hdocument)
  obtain ⟨behind, hfront⟩ : ∃ behind, header.text.toList = '#' :: behind := by
    rw [header.text_eq, String.toList_append]
    exact ⟨_, rfl⟩
  have hstrict : (Json.Relaxed.toStrict header.text).toList =
      '#' :: Json.Relaxed.blanked true (Json.Relaxed.marked .code behind) := by
    rw [Json.Relaxed.toStrict, String.toList_ofList, hfront]
    rfl
  rw [hstrict] at htext
  cases htext

/-- Whatever texts a manifest has, its header is well nested, starts with the pragma and an
empty line, and ends in a line break. -/
theorem Manifest.header_nested {text : String} (h : manifest.header style = .ok text) :
    Nested text.toList ∧ (∃ rest, text = "#pragma once\n\n" ++ rest) ∧
      ∃ front, text = front ++ "\n" := by
  obtain ⟨header, hheader, rfl⟩ := header_eq_ok.1 h
  have hfits := Header.fits hheader
  exact ⟨hfits.nested, ⟨_, header.text_eq⟩, header.text_ends⟩

/-- Names and paths with quotes, braces, backslashes, slashes and a line break. -/
theorem Manifest.header_nested_specials :
    ∃ text, Manifest.header .snake ⟨[⟨"\x7b\"", "say \"\x7d\" // \\", 0,
      [⟨"a\n\x7b", "\\", .pose, true⟩, ⟨"//", "\x7d\n\"", .float, true⟩],
      [⟨"/interaction_profiles/\"//", ⟨[("a\n\x7b", ["/user/hand/left/\"\x7b\\"]),
        ("//", ["/user/hand/right/\x7d\n//"])], by decide⟩⟩]⟩]⟩ = .ok text ∧
      Nested text.toList ∧ (∃ rest, text = "#pragma once\n\n" ++ rest) ∧
      ∃ front, text = front ++ "\n" := by
  apply Exists.imp fun text hheader => ⟨hheader, header_nested hheader⟩
  exact exists_header_singleton .snake rfl

end XrManifest
