import XrManifest.Proofs.Header.Composition
import XrManifest.Proofs.Manifest.Priorities
import XrManifest.Proofs.Manifest.RoundTrip

/-!
# The line of a priority

The priority of an action set is written once, on a line of its own, and everything else in a
header is independent of it. The main statement is `Manifest.priority_exact`: whatever number is
written in a manifest in the place of a priority of 0, either the manifest is refused, or this
number is the priority and stands on the line of it.
-/

namespace XrManifest

open XrManifest.Cpp XrManifest.Naming

/-! ## Layouts that differ in one line -/

namespace Cpp.Layout

/-- Lines that differ in one of them, which is not the first. -/
theorem unlines_middle (first : List Char) (above below : List (List Char)) :
    ∃ front back, ∀ line, unlines (first :: above ++ line :: below) =
      front ++ '\n' :: (line ++ '\n' :: back) := by
  obtain ⟨others, last, hlast⟩ :=
    (List.eq_nil_or_concat (first :: above)).resolve_left (List.cons_ne_nil first above)
  refine ⟨unlines others ++ last, unlines below, fun line => ?_⟩
  rw [hlast]
  simp [unlines]

/-- The layouts have the same lines but for one of them, which is `level` levels deep. -/
def VaryIn {ι : Type} (level : Nat) (line : ι → String) (layouts : ι → Layout) : Prop :=
  ∀ depth, ∃ above below, ∀ i,
    (layouts i).lines depth = above ++ lineAt (depth + level) (line i) :: below

namespace VaryIn

variable {ι : Type} {level : Nat} {line : ι → String} {layouts : ι → Layout}

/-- A line that differs differs in itself. -/
theorem single (line : ι → String) : VaryIn 0 line fun i => .line (line i) :=
  fun _ => ⟨[], [], fun _ => rfl⟩

/-- What stands below does not matter. -/
theorem appendRight (h : VaryIn level line layouts) (other : Layout) :
    VaryIn level line fun i => layouts i ++ other := by
  intro depth
  obtain ⟨above, below, hlines⟩ := h depth
  refine ⟨above, below ++ other.lines depth, fun i => ?_⟩
  rw [← List.cons_append, ← List.append_assoc, ← hlines]
  rfl

theorem appendLeft (h : VaryIn level line layouts) (other : Layout) :
    VaryIn level line fun i => other ++ layouts i := by
  intro depth
  obtain ⟨above, below, hlines⟩ := h depth
  refine ⟨other.lines depth ++ above, below, fun i => ?_⟩
  rw [List.append_assoc, ← hlines]
  rfl

/-- Neither do layouts in front of a layout or behind it. -/
theorem stack (h : VaryIn level line layouts) (front back : List Layout) :
    VaryIn level line fun i => Layout.stack (front ++ layouts i :: back) := by
  induction front with
  | nil => exact h.appendRight (Layout.stack back)
  | cons first front ih => exact ih.appendLeft first

/-- What is one level to the right has its line one level deeper. -/
theorem indented (h : VaryIn level line layouts) :
    VaryIn (level + 1) line fun i => .indented (layouts i) := by
  intro depth
  obtain ⟨above, below, hlines⟩ := h (depth + 1)
  refine ⟨above, below, fun i => ?_⟩
  rw [Nat.add_comm level 1, ← Nat.add_assoc, ← hlines]
  rfl

theorem braced (h : VaryIn level line layouts) (header close : String) :
    VaryIn (level + 1) line fun i => Layout.braced header close (layouts i) :=
  (h.indented.appendLeft _).appendRight _

end VaryIn

end Cpp.Layout

/-- What a method has in front of its body does not depend on the body. -/
theorem Cpp.Method.layout_with_body (method : Method) (body : List Code) :
    layout { method with body } =
      .block method.signature (.stack (body.map Code.layout)) := rfl

/-! ## Headers -/

/-- A plan with another priority of its set. -/
def Plan.withPriority (plan : Plan) (priority : Int32) : Plan :=
  { plan with set := { plan.set with priority } }

/-- What is planned for a set does not depend on its priority. -/
theorem Plan.ofActionSet_withPriority (set : ActionSet) (priority : Int32) :
    ofActionSet { set with priority } = (ofActionSet set).map (withPriority · priority) := by
  have hactions : ∀ action, ActionPlan.ofAction { set with priority } action =
      ActionPlan.ofAction set action := fun action => rfl
  have hhands : ActionSet.usedHands { set with priority } = set.usedHands := rfl
  simp only [ofActionSet, hhands, funext hactions]
  cases set.actions.mapM (ActionPlan.ofAction set) with
  | error error => rfl
  | ok actions => cases set.usedHands <;> rfl

namespace Header

/-- The statement that gives a set its priority. -/
def priorityText (priority : Int) : String :=
  "actionSetInfo.priority = " ++ toString priority ++ ";"

section
variable (style : Style) (plan : Plan)

/-- The priority is in one statement of the method. -/
theorem createHandles_vary :
    Layout.VaryIn 1 (fun priority : Int32 => priorityText priority.toInt) fun priority =>
      (createHandles style (plan.withPriority priority)).layout := by
  let body := (createHandles style plan).body.map Code.layout
  -- the priority follows the declaration of the structure and its two names
  have hbody : ∀ priority : Int32,
      (createHandles style (plan.withPriority priority)).body.map Code.layout =
        body.take 3 ++ .line (priorityText priority.toInt) :: body.drop 4 := fun priority => rfl
  have hlayout : ∀ priority : Int32, (createHandles style (plan.withPriority priority)).layout =
      .block (createHandles style plan).signature
        (.stack (body.take 3 ++ .line (priorityText priority.toInt) :: body.drop 4)) := by
    intro priority
    -- as methods with other bodies they have one signature, whatever it says
    rw [← hbody priority]
    exact Method.layout_with_body (createHandles style plan) _
  simp only [hlayout]
  exact ((Layout.VaryIn.single _).stack _ _).braced _ _

theorem handles_vary :
    Layout.VaryIn 2 (fun priority : Int32 => priorityText priority.toInt) fun priority =>
      (handles style (plan.withPriority priority)).layout := by
  let members := (handles style plan).members.map Member.layout
  -- the handles are created behind the destructor and an empty line
  have hmembers : ∀ priority : Int32,
      (handles style (plan.withPriority priority)).members.map Member.layout =
        members.take 2 ++ (createHandles style (plan.withPriority priority)).layout ::
          members.drop 3 := fun priority => rfl
  have hname : ∀ priority : Int32, (handles style (plan.withPriority priority)).name =
      (handles style plan).name := fun priority => rfl
  simp only [Struct.layout, hmembers, hname]
  exact ((createHandles_vary style plan).stack _ _).braced _ _

/-- The other structs of the set do not have the priority. -/
theorem SetStructs.vary :
    Layout.VaryIn 2 (fun priority : Int32 => priorityText priority.toInt) fun priority =>
      (SetStructs.ofPlan style (plan.withPriority priority)).layout := by
  have hstructs : ∀ priority : Int32,
      (SetStructs.ofPlan style (plan.withPriority priority)).layout =
        .stack ([] ++ (.blank ++ (Header.handles style (plan.withPriority priority)).layout) ::
          [.blank ++ (Header.states style plan).layout,
            .blank ++ (Header.tables style plan).layout]) :=
    fun priority => rfl
  simp only [hstructs]
  exact ((handles_vary style plan).appendLeft .blank).stack _ _

/-- Headers that differ in the priority of one set differ in one line. -/
theorem exists_lines (front back : List SetStructs) :
    ∃ above below : String, ∀ priority : Int32,
      (mk (front ++ .ofPlan style (plan.withPriority priority) :: back)).text =
        above ++ "\n        " ++ priorityText priority.toInt ++ "\n" ++ below := by
  obtain ⟨above, below, hsets⟩ := (SetStructs.vary style plan).stack
    (front.map SetStructs.layout) (back.map SetStructs.layout) 0
  -- the pragma stands above, so a line break ends what is in front of the line
  obtain ⟨before, after, hunlines⟩ :=
    Layout.unlines_middle "#pragma once".toList ([] :: above) below
  refine ⟨String.ofList before, String.ofList after, fun priority => ?_⟩
  have hlines : (mk (front ++ .ofPlan style (plan.withPriority priority) :: back)).layout.lines 0 =
      "#pragma once".toList :: ([] :: above) ++
        Layout.lineAt 2 (priorityText priority.toInt) :: below := by
    have hstack := congrArg (fun lines => "#pragma once".toList :: [] :: lines) (hsets priority)
    simp only [layout, List.map_append, List.map_cons]
    exact hstack
  have hends : (priorityText priority.toInt).toList =
      ("actionSetInfo.priority = " ++ toString priority.toInt).toList ++ [';'] :=
    String.toList_append
  have hmargin : "\n        ".toList = '\n' :: Layout.margin 2 := rfl
  have hbreak : "\n".toList = ['\n'] := rfl
  rw [text, Layout.render, hlines, hunlines, Layout.lineAt_of_ends hends (by decide),
    ← String.toList_inj]
  simp only [String.toList_append, String.toList_ofList, hmargin, hbreak, List.append_assoc,
    List.cons_append, List.nil_append]

end

end Header

namespace Manifest

/-- The header of a manifest with any priority for one of its sets has the line of this priority,
and nothing else depends on it. -/
theorem exists_priority_line {style : Style} {manifest : Manifest} {index : Nat} {set : ActionSet}
    {text : String} (h : manifest.header style = .ok text)
    (hset : manifest.actionSets[index]? = some set) :
    ∃ above below : String, ∀ priority : Int32,
      (manifest.withPriority index priority).header style =
        .ok (above ++ "\n        " ++ Header.priorityText priority.toInt ++ "\n" ++ below) := by
  obtain ⟨_, hheader, rfl⟩ := header_eq_ok.1 h
  obtain ⟨plans, hplans, -⟩ := Header.ofManifest_eq_ok.1 hheader
  obtain ⟨front, back, hsplit, hfront⟩ := exists_split hset
  obtain ⟨sets⟩ := manifest
  obtain rfl : sets = front ++ set :: back := hsplit
  -- the plans are cut where the sets are
  obtain ⟨left, plan, right, rfl, -, hplan, hothers⟩ := mapM_middle hplans
  obtain ⟨above, below, hlines⟩ := Header.exists_lines style plan
    (left.map (.ofPlan style)) (right.map (.ofPlan style))
  refine ⟨above, below, fun priority => ?_⟩
  -- only the plan of the changed set is another one
  have hchanged : Header.ofManifest style (withPriority ⟨front ++ set :: back⟩ index priority) =
      .ok ⟨left.map (.ofPlan style) ++ .ofPlan style (plan.withPriority priority) ::
        right.map (.ofPlan style)⟩ := by
    have hplans := hothers { set with priority }
    rw [Plan.ofActionSet_withPriority, hplan] at hplans
    refine Header.ofManifest_eq_ok.2 ⟨left ++ plan.withPriority priority :: right, ?_, ?_⟩
    · rw [withPriority_append hfront]
      exact hplans
    · rw [List.map_append, List.map_cons]
  exact header_eq_ok.2 ⟨_, hchanged, hlines priority⟩

theorem withPriority_self {manifest : Manifest} {index : Nat} {set : ActionSet}
    (hset : manifest.actionSets[index]? = some set) :
    manifest.withPriority index set.priority = manifest := by
  obtain ⟨front, back, hsplit, hfront⟩ := exists_split hset
  obtain ⟨sets⟩ := manifest
  obtain rfl : sets = front ++ set :: back := hsplit
  rw [withPriority_append hfront]

/-- Priorities are read exactly. Where a priority of 0 stands in the text of a manifest, any other
number can be put. The manifest is read if and only if this number is an integer of 32 bits,
written without fraction and exponent and not as `-0`. Then it is the priority of the set, and in
the header only the line of the priority changes, which has the number in decimal digits. Any
other number, however large, makes the input malformed. -/
theorem priority_exact {style : Style} {text header : String} {manifest : Manifest} {index : Nat}
    {set : ActionSet} (hheader : generate style text = .ok header)
    (hmanifest : read text = .ok manifest) (hset : manifest.actionSets[index]? = some set)
    (hzero : set.priority = 0) :
    ∃ before after above below : String, text = before ++ "0" ++ after ∧
      header = above ++ "\n        " ++ Header.priorityText 0 ++ "\n" ++ below ∧
      ∀ token : Json.NumberToken,
        let changed := before ++ String.ofList token.text ++ after
        ((∃ found, read changed = .ok found) ↔ token.WritesInt32) ∧
        (token.WritesInt32 → ∃ priority : Int32, priority.toInt = token.integer ∧
          read changed = .ok (manifest.withPriority index priority) ∧
          generate style changed = .ok
            (above ++ "\n        " ++ Header.priorityText token.integer ++ "\n" ++ below)) ∧
        (¬ token.WritesInt32 → ∃ error, read changed = .error error ∧
          generate style changed = .error (.unreadable error) ∧
          ((∃ fault, error = .notJson fault) ∨
            error = .mismatch (ActionSet.priorityLocation index) .int32 .number) ∧
          ∃ place message, error.message = ReadError.malformed place message) := by
  obtain ⟨found, hfound, htext⟩ := generate_eq_ok.1 hheader
  obtain rfl := Except.ok.inj (hmanifest.symm.trans hfound)
  obtain ⟨before, after, rfl, hread⟩ := exists_priority_text hmanifest hset hzero
  obtain ⟨above, below, hlines⟩ := exists_priority_line htext hset
  -- the header itself is the one with the priority 0
  have hown := hlines set.priority
  rw [withPriority_self hset, htext, hzero] at hown
  refine ⟨before, after, above, below, rfl, Except.ok.inj hown, fun token => ?_⟩
  obtain ⟨hwritten, hrefused⟩ := hread token
  refine ⟨⟨?_, ?_⟩, fun hwrites => ?_, fun hwrites => ?_⟩
  · rintro ⟨found, hfound⟩
    by_contra hwrites
    obtain ⟨error, herror, -⟩ := hrefused hwrites
    cases hfound.symm.trans herror
  · intro hwrites
    obtain ⟨priority, hpriority⟩ := hwrites.exists_int32
    exact ⟨_, hwritten priority hwrites hpriority.symm⟩
  · obtain ⟨priority, hpriority⟩ := hwrites.exists_int32
    have hmanifest := hwritten priority hwrites hpriority.symm
    refine ⟨priority, hpriority, hmanifest, ?_⟩
    rw [← hpriority]
    exact generate_eq_ok.2 ⟨_, hmanifest, hlines priority⟩
  · obtain ⟨error, herror, hkind⟩ := hrefused hwrites
    refine ⟨error, herror, ?_, hkind, ?_⟩
    · rw [generate, herror]
      rfl
    · rcases hkind with ⟨fault, rfl⟩ | rfl
      · exact ⟨_, _, rfl⟩
      · exact ⟨_, _, rfl⟩

/-- The least priority in the place of a 0, and its opposite, which is refused. -/
theorem priority_exact_least :
    ∃ before after above below : String,
      generate .pascal (before ++ "0" ++ after) =
        .ok (above ++ "\n        " ++ Header.priorityText 0 ++ "\n" ++ below) ∧
      generate .pascal (before ++ "-2147483648" ++ after) =
        .ok (above ++ "\n        " ++ Header.priorityText (-2147483648) ++ "\n" ++ below) ∧
      ∃ error, generate .pascal (before ++ "2147483648" ++ after) = .error (.unreadable error) := by
  let set : ActionSet := ⟨"play", "Play", 0, [], []⟩
  obtain ⟨text, htext⟩ : ∃ text, Manifest.write ⟨[set]⟩ = .ok text := ⟨_, rfl⟩
  have hmanifest : read text = .ok ⟨[set]⟩ := (read_write htext).2
  obtain ⟨header, hheader⟩ : ∃ header, Manifest.header .pascal ⟨[set]⟩ = .ok header :=
    exists_header_singleton .pascal rfl
  have hgenerate : generate .pascal text = .ok header :=
    generate_eq_ok.2 ⟨_, hmanifest, hheader⟩
  have hset : (⟨[set]⟩ : Manifest).actionSets[0]? = some set := rfl
  -- the text is cut at the number, so any other number can be put in its place
  obtain ⟨before, after, above, below, hplace, rfl, hnumbers⟩ :=
    priority_exact hgenerate hmanifest hset rfl
  obtain ⟨-, hleast, -⟩ := hnumbers (.ofInt (-2147483648))
  obtain ⟨-, -, hopposite⟩ := hnumbers (.ofInt 2147483648)
  simp only [Json.NumberToken.writesInt32_ofInt, Json.NumberToken.integer_ofInt,
    Json.NumberToken.text_ofInt, String.ofList_toList] at hleast hopposite
  obtain ⟨_, -, -, hout⟩ := hleast (by decide)
  obtain ⟨error, -, hrefused, -⟩ := hopposite (by decide)
  exact ⟨before, after, above, below, hplace ▸ hgenerate, hout, error, hrefused⟩

end Manifest

end XrManifest
