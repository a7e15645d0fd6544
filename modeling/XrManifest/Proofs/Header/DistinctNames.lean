import XrManifest.Proofs.Derivation
import XrManifest.Proofs.Header.StateFetches
import XrManifest.Proofs.Naming.Keys

/-!
# Members with the same identifier

The actions of a set may be named freely, so that the handle of an action can be the
identifier of something else: of the set, of a hand, of a method that creates a space, or of
an action together with a hand. Where the handles of the actions differ, no two members have
the same identifier for any other reason. The main statement is
`Manifest.header_distinctNames`.
-/

namespace XrManifest

open XrManifest.Cpp XrManifest.Naming

/-! ## What is read -/

namespace ActionSet

/-- Some path of the hand is bound to the action. -/
def BindsHand (set : ActionSet) (action : Action) (hand : Hand) : Prop :=
  ∃ path, set.Binds action.name path ∧ hand.owns path = true

/-- What an action is read for: the action as a whole, or the hands that it is bound to. -/
def Reads (set : ActionSet) (action : Action) : Subaction → Prop
  | .whole => action.perHand = false
  | .hand hand => action.perHand = true ∧ set.BindsHand action hand

end ActionSet

namespace Header

/-- The methods that create a space, which they give back through a pointer. -/
def spaceCreators (struct : Struct) : List Method :=
  struct.methods.filter fun method =>
    method.parameters.any fun parameter => parameter.type = "XrSpace*"

/-- The identifiers of the handles and paths of a struct, and of the methods that create a
space. -/
def memberNames (struct : Struct) : List String :=
  struct.fields.map Declaration.name ++ (spaceCreators struct).map Method.name

/-! ## Reasons for the same identifier -/

/-- Of the actions of these kinds, none that is read as a whole has the handle that is made of
the name of another one and of a hand that this one is read for. -/
def ReadsApart (style : Style) (set : ActionSet) (kind : ActionType → Bool) : Prop :=
  ∀ action ∈ set.actions, kind action.type = true → ∀ hand, set.Reads action (.hand hand) →
    ∀ whole ∈ set.actions, kind whole.type = true → set.Reads whole .whole →
      actionHandle style whole.name ≠ style.rename [action.name, hand.label]

/-- No action has a handle with the identifier of something else. -/
structure MembersApart (style : Style) (set : ActionSet) : Prop where
  /-- No action has the handle of the set. -/
  owner : ∀ action ∈ set.actions, actionHandle style action.name ≠ setHandle style
  /-- No action has the name of a hand in use. -/
  hands : ∀ action ∈ set.actions, ∀ user ∈ set.actions, ∀ hand, set.BindsHand user hand →
    actionHandle style action.name ≠ handPath style hand
  /-- No action has the name of a method that creates a space. -/
  creators : ∀ action ∈ set.actions, ∀ pose ∈ set.actions, pose.type = .pose →
    ∀ subaction, set.Reads pose subaction →
      actionHandle style action.name ≠ spaceCreator style pose.name subaction
  /-- No pose has the name of another one and of a hand. -/
  poses : ReadsApart style set fun type => type = .pose

/-! ## Identifiers -/

section
variable {style : Style} {action other : String} {subaction subaction' : Subaction}

/-- The underscore between an action and a subaction does not matter. -/
theorem key_subactionFragment :
    style.key (subactionFragment action subaction).toList =
      style.key action.toList ++ style.key subaction.label.toList := by
  have hjoined : (subactionFragment action subaction).toList =
      joined [action, subaction.label] := by
    simp [subactionFragment, joined]
  rw [hjoined, Style.key_joined]
  simp

/-- What is put behind the names of two states does not matter. -/
theorem stateField_eq_stateField :
    stateField style action subaction = stateField style other subaction' ↔
      style.rename [action, subaction.label] = style.rename [other, subaction'.label] := by
  simp only [stateField, Style.rename_eq_rename, List.flatMap_cons, List.flatMap_nil,
    List.append_nil, key_subactionFragment, List.append_cancel_right_eq]

/-- What is put around the names of two poses does not matter. -/
theorem spaceCreator_eq_spaceCreator :
    spaceCreator style action subaction = spaceCreator style other subaction' ↔
      style.rename [action, subaction.label] = style.rename [other, subaction'.label] := by
  simp only [spaceCreator, Style.rename_eq_rename, List.flatMap_cons, List.flatMap_nil,
    List.append_nil, key_subactionFragment, List.append_cancel_right_eq,
    List.append_cancel_left_eq]

/-- The name of an action as a whole is that of its handle. -/
theorem rename_whole :
    style.rename [action, Subaction.whole.label] = actionHandle style action := by
  simp [actionHandle, Style.rename_eq_rename, Subaction.label]

/-- The name of an action and a hand tells both. -/
theorem rename_hand_eq_rename_hand {hand hand' : Hand} :
    style.rename [action, hand.label] = style.rename [other, hand'.label] ↔
      hand = hand' ∧ actionHandle style action = actionHandle style other := by
  simp only [actionHandle, Style.rename_eq_rename, List.flatMap_cons, List.flatMap_nil,
    List.append_nil]
  constructor
  · intro h
    -- the labels are ends of the same text, and neither is an end of the other
    have hhand : hand = hand' := by
      have hend : style.key hand'.label.toList <:+
          style.key action.toList ++ style.key hand.label.toList := h ▸ List.suffix_append _ _
      have hsame := List.suffix_or_suffix_of_suffix (List.suffix_append _ _) hend
      revert hsame
      cases style <;> cases hand <;> cases hand' <;> decide +kernel
    subst hhand
    exact ⟨rfl, List.append_cancel_right h⟩
  · rintro ⟨rfl, h⟩
    rw [h]

/-- Behind the same name, the subaction can be told. -/
theorem eq_of_rename_subaction_eq
    (h : style.rename [action, subaction.label] = style.rename [action, subaction'.label]) :
    subaction = subaction' := by
  simp only [Style.rename_eq_rename, List.flatMap_cons, List.flatMap_nil, List.append_nil,
    List.append_cancel_left_eq] at h
  revert h
  rcases subaction with _ | _ | _ <;> rcases subaction' with _ | _ | _ <;> cases style <;> decide

/-- An action does not have its own name with a hand. -/
theorem actionHandle_ne_rename_hand {hand : Hand} :
    actionHandle style action ≠ style.rename [action, hand.label] := by
  have hlabel : style.key hand.label.toList ≠ [] := by
    cases style <;> cases hand <;> decide
  simpa [actionHandle, Style.rename_eq_rename] using hlabel

theorem handPath_ne_setHandle (hand : Hand) : handPath style hand ≠ setHandle style := by
  cases style <;> cases hand <;> decide

/-- The hands have different paths. -/
theorem handPath_inj {hand hand' : Hand} (h : handPath style hand = handPath style hand') :
    hand = hand' := by
  revert h
  cases style <;> cases hand <;> cases hand' <;> decide

/-- The name of a method that creates a space starts in its own way. -/
theorem ne_spaceCreator {fragment : String}
    (hfirst : (style.key fragment.toList).head? ≠ (style.key "Create".toList).head?) :
    style.rename [fragment] ≠ spaceCreator style action subaction := by
  intro h
  have hcreate : style.key "Create".toList ≠ [] := by cases style <;> decide
  have hkey := Style.rename_eq_rename.1 h
  apply hfirst
  rw [List.flatMap_cons, List.flatMap_cons, List.flatMap_nil, List.append_nil] at hkey
  rw [hkey, List.head?_append_of_ne_nil _ hcreate]

theorem setHandle_ne_spaceCreator : setHandle style ≠ spaceCreator style action subaction :=
  ne_spaceCreator (by cases style <;> decide)

/-- The path of a hand ends in another word than the name of a method. -/
theorem handPath_ne_spaceCreator (hand : Hand) :
    handPath style hand ≠ spaceCreator style action subaction :=
  ne_spaceCreator (by cases style <;> cases hand <;> decide)

end

/-! ## Names of actions and subactions -/

def subactionNames (name : String → Subaction → String) (parts : List ActionPlan) :
    List String :=
  parts.flatMap fun part => part.subactions.map (name part.action.name)

section
variable {style : Style} {name : String → Subaction → String} {parts : List ActionPlan}

/-- Actions with different handles share a name only if one of them is read as a whole, and
has the handle that is made of the other one and of a hand. -/
theorem eq_of_rename_eq {action other : String} {subaction subaction' : Subaction}
    (hdiffer : actionHandle style action ≠ actionHandle style other)
    (h : style.rename [action, subaction.label] = style.rename [other, subaction'.label]) :
    (∃ hand, subaction = .hand hand ∧ subaction' = .whole ∧
        actionHandle style other = style.rename [action, hand.label]) ∨
      ∃ hand, subaction = .whole ∧ subaction' = .hand hand ∧
        actionHandle style action = style.rename [other, hand.label] := by
  -- with a hand on both sides or on none, the names of the actions would be the same
  cases subaction with
  | whole =>
    rw [rename_whole] at h
    cases subaction' with
    | whole =>
      rw [rename_whole] at h
      exact absurd h hdiffer
    | hand hand => exact .inr ⟨hand, rfl, rfl, h⟩
  | hand hand =>
    cases subaction' with
    | whole =>
      rw [rename_whole] at h
      exact .inl ⟨hand, rfl, rfl, h.symm⟩
    | hand hand' => exact absurd (rename_hand_eq_rename_hand.1 h).2 hdiffer

/-- Names that tell actions and subactions apart as far as `rename` does are different, unless
an action that is read as a whole has the name of another one and of a hand. -/
theorem nodup_subactionNames
    (hname : ∀ action subaction other subaction',
      name action subaction = name other subaction' ↔
        style.rename [action, subaction.label] = style.rename [other, subaction'.label])
    (hhandles : (parts.map fun part => actionHandle style part.action.name).Nodup)
    (hsubactions : ∀ part ∈ parts, part.subactions.Nodup) :
    (subactionNames name parts).Nodup ↔
      ∀ part ∈ parts, ∀ hand, .hand hand ∈ part.subactions →
        ∀ whole ∈ parts, .whole ∈ whole.subactions →
          actionHandle style whole.action.name ≠
            style.rename [part.action.name, hand.label] := by
  have hmap : (parts.Pairwise fun first second =>
      actionHandle style first.action.name ≠ actionHandle style second.action.name) :=
    List.pairwise_map.1 hhandles
  unfold subactionNames
  rw [List.nodup_flatMap]
  constructor
  · rintro ⟨-, hpairwise⟩ part hpart hand hhand whole hwhole hread hsame
    -- the name of a hand is longer, so one action cannot clash with itself
    have hne : part ≠ whole := by
      rintro rfl
      exact actionHandle_ne_rename_hand hsame
    have hsymm : Std.Symm (Function.onFun List.Disjoint fun part : ActionPlan =>
        part.subactions.map (name part.action.name)) := ⟨fun _ _ h => h.symm⟩
    have hdisjoint := hpairwise.forall hpart hwhole hne
    refine hdisjoint (List.mem_map.2 ⟨_, hhand, rfl⟩) (List.mem_map.2 ⟨_, hread, ?_⟩)
    rw [hname, rename_whole]
    exact hsame
  · intro hapart
    constructor
    · intro part hpart
      refine (hsubactions part hpart).map fun subaction subaction' hsame => ?_
      exact eq_of_rename_subaction_eq ((hname _ _ _ _).1 hsame)
    -- two actions clash only where a hand lengthens the name of one to that of the other
    · refine hmap.imp_of_mem fun {first second} hfirst hsecond hdiffer => ?_
      simp only [Function.onFun, List.disjoint_left, List.mem_map]
      rintro _ ⟨subaction, hsubaction, rfl⟩ ⟨subaction', hsubaction', hsame⟩
      rcases eq_of_rename_eq hdiffer ((hname _ _ _ _).1 hsame.symm) with
        ⟨hand, rfl, rfl, hclash⟩ | ⟨hand, rfl, rfl, hclash⟩
      · exact hapart first hfirst hand hsubaction second hsecond hsubaction' hclash
      · exact hapart second hsecond hand hsubaction' first hfirst hsubaction hclash

end

/-! ## The names of the structs -/

section
variable {style : Style} {plan : Plan}

def poses (plan : Plan) : List ActionPlan := plan.actions.filter (·.action.type = .pose)

theorem methods_append (name : String) (before after : List Member) :
    (Struct.mk name (before ++ after)).methods =
      (Struct.mk name before).methods ++ (Struct.mk name after).methods :=
  List.filterMap_append

/-- There is a method for each pose and each subaction of it. -/
theorem methods_createSpaces (name : String) (parts : List ActionPlan) :
    (Struct.mk name (parts.flatMap (createSpaces style))).methods =
      (parts.filter (·.action.type = .pose)).flatMap fun pose =>
        pose.subactions.map (createSpace style pose.action) := by
  induction parts with
  | nil => rfl
  | cons part parts ih =>
    rw [List.flatMap_cons, methods_append, ih]
    by_cases hpose : part.action.type = .pose
    · simp [hpose, createSpaces, Struct.methods, List.filterMap_flatMap, List.map_eq_flatMap]
    · simp [hpose, createSpaces, Struct.methods]

/-- Methods are no fields. -/
theorem fields_createSpaces (name : String) (parts : List ActionPlan) :
    (Struct.mk name (parts.flatMap (createSpaces style))).fields = [] := by
  apply List.eq_nil_iff_forall_not_mem.2
  intro field hfield
  simp [Struct.mem_fields, createSpaces] at hfield

/-- The methods for spaces are those of the poses, pose by pose. -/
theorem spaceCreators_handles :
    spaceCreators (handles style plan) =
      (poses plan).flatMap fun pose => pose.subactions.map (createSpace style pose.action) := by
  have hmethods : (handles style plan).methods =
      [destructor style plan.set, createHandles style plan] ++
        (poses plan).flatMap fun pose => pose.subactions.map (createSpace style pose.action) := by
    rw [poses, ← methods_createSpaces (handlesStruct style plan.set.name)]
    cases hhands : plan.hands.isEmpty <;>
      simp [handles, hhands, Struct.methods]
  have hother : ∀ method ∈ [destructor style plan.set, createHandles style plan],
      ¬ (method.parameters.any fun parameter => parameter.type = "XrSpace*") = true := by
    simp [destructor, createHandles, instanceParameter]
  have hspaces : ∀ method ∈ (poses plan).flatMap fun pose =>
      pose.subactions.map (createSpace style pose.action),
      (method.parameters.any fun parameter => parameter.type = "XrSpace*") = true := by
    intro method hmethod
    obtain ⟨pose, -, hmethod⟩ := List.mem_flatMap.1 hmethod
    obtain ⟨subaction, -, rfl⟩ := List.mem_map.1 hmethod
    rfl
  rw [spaceCreators, hmethods, List.filter_append, List.filter_eq_nil_iff.2 hother,
    List.filter_eq_self.2 hspaces, List.nil_append]

theorem fields_handles :
    (handles style plan).fields =
      .tagged "XrActionSet" (setHandle style) "XR_NULL_HANDLE" ::
        (plan.set.actions.map (fun action =>
          .tagged "XrAction" (actionHandle style action.name) "XR_NULL_HANDLE") ++
        plan.hands.map fun hand => .tagged "XrPath" (handPath style hand) "XR_NULL_PATH") := by
  have hspaces : (Struct.mk (handlesStruct style plan.set.name)
      (plan.actions.flatMap (createSpaces style))).fields = [] := fields_createSpaces _ _
  unfold Struct.fields at hspaces
  cases hhands : plan.hands.isEmpty <;> simp [handles, hhands, Struct.fields, hspaces]

/-- The members are the set, its actions, the hands in use and the methods for spaces. -/
theorem memberNames_handles :
    memberNames (handles style plan) =
      setHandle style :: (plan.set.actions.map (fun action => actionHandle style action.name) ++
        plan.hands.map (handPath style)) ++ subactionNames (spaceCreator style) (poses plan) := by
  rw [memberNames, fields_handles, spaceCreators_handles, subactionNames, List.map_flatMap]
  simp only [List.map_cons, List.map_append, List.map_map]
  rfl

/-- Every input has a state, and no output has one. -/
theorem accessedInputs_fst (actions : List ActionPlan) :
    (accessedInputs actions).map Prod.fst = actions.filter ActionPlan.isInput := by
  unfold accessedInputs
  induction actions with
  | nil => rfl
  | cons action actions ih =>
    cases htype : action.action.type <;>
      simp_all [ActionPlan.isInput, ActionType.isOutput, ActionType.stateAccess?]

/-- The states are those of the inputs, input by input. -/
theorem fieldNames_states :
    (states style plan).fields.map Declaration.name =
      subactionNames (stateField style) plan.inputs := by
  rw [fields_states, stateFields, subactionNames, Plan.inputs, ← accessedInputs_fst,
    List.map_flatMap, List.flatMap_map]
  simp only [List.map_map]
  rfl

end

/-! ## Plans -/

section
variable {style : Style} {set : ActionSet} {plan : Plan}

/-- An action is planned for what it is read for. -/
theorem mem_subactions (hexact : plan.Exact set) {part : ActionPlan} (hpart : part ∈ plan.actions)
    (subaction : Subaction) :
    subaction ∈ part.subactions ↔ set.Reads part.action subaction := by
  have hhands := (hexact.hands part hpart).mem
  cases hperHand : part.action.perHand with
  | false =>
    rw [(hexact.whole part hpart).2 hperHand]
    cases subaction <;> simp [ActionSet.Reads, hperHand]
  | true =>
    rw [hexact.perHand part hpart hperHand]
    cases subaction <;>
      simp [ActionSet.Reads, ActionSet.BindsHand, hperHand, hhands, ActionSet.mem_suggestedFor]

theorem nodup_subactions (hexact : plan.Exact set) {part : ActionPlan}
    (hpart : part ∈ plan.actions) : part.subactions.Nodup := by
  cases hperHand : part.action.perHand with
  | false =>
    rw [(hexact.whole part hpart).2 hperHand]
    exact List.nodup_singleton _
  | true =>
    rw [hexact.perHand part hpart hperHand]
    exact (hexact.hands part hpart).nodup.map fun _ _ => Subaction.hand.inj

/-- The hands of a plan are those under which an action is bound. -/
theorem mem_hands (hexact : plan.Exact set) {hand : Hand} :
    hand ∈ plan.hands ↔ ∃ user ∈ set.actions, set.BindsHand user hand := by
  have hpart : ∀ part ∈ plan.actions, hand ∈ part.hands ↔ set.BindsHand part.action hand := by
    intro part hpart
    simp only [(hexact.hands part hpart).mem, ActionSet.BindsHand, ActionSet.mem_suggestedFor]
  rw [hexact.used.mem, ← hexact.actions]
  simp only [List.mem_map, exists_exists_and_eq_and]
  exact exists_congr fun part => and_congr_right fun hmem => hpart part hmem

/-- The names that are made for the actions of some kinds are different exactly when these
actions are read apart. -/
theorem nodup_names_iff (hexact : plan.Exact set) {name : String → Subaction → String}
    (hname : ∀ action subaction other subaction',
      name action subaction = name other subaction' ↔
        style.rename [action, subaction.label] = style.rename [other, subaction'.label])
    (hhandles : (set.actions.map fun action => actionHandle style action.name).Nodup)
    (kind : ActionType → Bool) :
    (subactionNames name (plan.actions.filter fun part => kind part.action.type)).Nodup ↔
      ReadsApart style set kind := by
  rw [← hexact.actions, List.map_map] at hhandles
  have hparts := hhandles.sublist
    (List.Sublist.map _ (List.filter_sublist (p := fun part => kind part.action.type)))
  rw [nodup_subactionNames hname hparts
    fun part hpart => nodup_subactions hexact (List.mem_of_mem_filter hpart)]
  unfold ReadsApart
  rw [← hexact.actions]
  simp only [List.mem_filter, and_imp, List.forall_mem_map]
  refine forall₂_congr fun part hpart => imp_congr_right fun _ => forall_congr' fun hand => ?_
  rw [mem_subactions hexact hpart]
  refine imp_congr_right fun _ => forall₂_congr fun whole hwhole => imp_congr_right fun _ => ?_
  rw [mem_subactions hexact hwhole]

/-- A name is made for each subaction that an action of the kind is read for. -/
theorem mem_subactionNames (hexact : plan.Exact set) {name : String → Subaction → String}
    {identifier : String} (kind : ActionType → Bool) :
    identifier ∈ subactionNames name (plan.actions.filter fun part => kind part.action.type) ↔
      ∃ action ∈ set.actions, kind action.type = true ∧
        ∃ subaction, set.Reads action subaction ∧ name action.name subaction = identifier := by
  rw [← hexact.actions]
  simp only [subactionNames, List.mem_flatMap, List.mem_filter, List.mem_map, and_assoc,
    exists_exists_and_eq_and]
  refine exists_congr fun part => and_congr_right fun hpart => and_congr_right fun _ => ?_
  simp only [mem_subactions hexact hpart]

/-- Where `first`, `bs` and `cs` have nothing in common, the whole has no repeats exactly when
nothing of `as` is found elsewhere and `cs` has none. -/
theorem nodup_cons_append_iff {α : Type} {first : α} {as bs cs : List α} (has : as.Nodup)
    (hbs : bs.Nodup) (hfirst : first ∉ bs ++ cs) (hapart : ∀ b ∈ bs, b ∉ cs) :
    (first :: (as ++ bs) ++ cs).Nodup ↔
      (∀ a ∈ as, a ≠ first) ∧ (∀ a ∈ as, ∀ b ∈ bs, a ≠ b) ∧ (∀ a ∈ as, ∀ c ∈ cs, a ≠ c) ∧
        cs.Nodup := by
  simp only [List.cons_append, List.append_assoc, List.nodup_cons, List.nodup_append,
    List.mem_append] at hfirst ⊢
  grind

/-- The members of a struct of handles have different identifiers exactly when no handle of an
action is the identifier of something else. -/
theorem nodup_memberNames_iff (hset : plan.set = set) (hexact : plan.Exact set)
    (hhandles : (set.actions.map fun action => actionHandle style action.name).Nodup) :
    (memberNames (handles style plan)).Nodup ↔ MembersApart style set := by
  have hhands : (plan.hands.map (handPath style)).Nodup :=
    hexact.used.nodup.map fun _ _ => handPath_inj
  have hposes := nodup_names_iff hexact (fun _ _ _ _ => spaceCreator_eq_spaceCreator) hhandles
    fun type => type = .pose
  have hmem : ∀ identifier, identifier ∈ subactionNames (spaceCreator style) (poses plan) ↔
      ∃ pose ∈ set.actions, decide (pose.type = .pose) = true ∧ ∃ subaction,
        set.Reads pose subaction ∧ spaceCreator style pose.name subaction = identifier :=
    fun _ => mem_subactionNames hexact fun type => type = .pose
  have hfirst : setHandle style ∉ plan.hands.map (handPath style) ++
      subactionNames (spaceCreator style) (poses plan) := by
    rw [List.mem_append, List.mem_map]
    rintro (⟨hand, -, hsame⟩ | hcreator)
    · exact handPath_ne_setHandle hand hsame
    · obtain ⟨pose, -, -, subaction, -, hsame⟩ := (hmem _).1 hcreator
      exact setHandle_ne_spaceCreator hsame.symm
  have hpaths : ∀ path ∈ plan.hands.map (handPath style),
      path ∉ subactionNames (spaceCreator style) (poses plan) := by
    intro path hpath hcreator
    obtain ⟨hand, -, rfl⟩ := List.mem_map.1 hpath
    obtain ⟨pose, -, -, subaction, -, hsame⟩ := (hmem _).1 hcreator
    exact handPath_ne_spaceCreator hand hsame.symm
  rw [memberNames_handles, hset, nodup_cons_append_iff hhandles hhands hfirst hpaths]
  constructor
  · rintro ⟨howner, hhand, hcreator, hnodup⟩
    refine ⟨?_, ?_, ?_, hposes.1 hnodup⟩
    · intro action haction
      exact howner _ (List.mem_map_of_mem haction)
    · intro action haction user huser hand hbinds
      exact hhand _ (List.mem_map_of_mem haction) _
        (List.mem_map_of_mem ((mem_hands hexact).2 ⟨user, huser, hbinds⟩))
    · intro action haction pose hpose htype subaction hreads
      exact hcreator _ (List.mem_map_of_mem haction) _
        ((hmem _).2 ⟨pose, hpose, by simpa using htype, subaction, hreads, rfl⟩)
  · rintro ⟨howner, hhand, hcreator, hread⟩
    refine ⟨List.forall_mem_map.2 howner, ?_, ?_, hposes.2 hread⟩
    · intro _ hhandle _ hpath
      obtain ⟨action, haction, rfl⟩ := List.mem_map.1 hhandle
      obtain ⟨hand, hused, rfl⟩ := List.mem_map.1 hpath
      obtain ⟨user, huser, hbinds⟩ := (mem_hands hexact).1 hused
      exact hhand action haction user huser hand hbinds
    · intro _ hhandle _ hname
      obtain ⟨action, haction, rfl⟩ := List.mem_map.1 hhandle
      obtain ⟨pose, hpose, htype, subaction, hreads, rfl⟩ := (hmem _).1 hname
      exact hcreator action haction pose hpose (by simpa using htype) subaction hreads

end
end Header

/-! ## Headers -/

open Header in
/-- Where the handles of the actions of a set differ, its members have different identifiers
exactly when no action is named like another member, and its states exactly when no input that
is read as a whole is named like another one with a hand. -/
theorem Manifest.header_distinctNames {style : Style} {manifest : Manifest} {text : String}
    (h : manifest.header style = .ok text) :
    ∃ header, Header.parse text = some header ∧
      List.Forall₂ (fun set structs =>
          structs.handles.name = handlesStruct style set.name ∧
          structs.states.name = statesStruct style set.name ∧
          ((set.actions.map fun action => actionHandle style action.name).Nodup →
            ((memberNames structs.handles).Nodup ↔ MembersApart style set) ∧
            ((structs.states.fields.map Declaration.name).Nodup ↔
              ReadsApart style set fun type => !type.isOutput)))
        manifest.actionSets header.sets := by
  refine header_parse (fun set _ plan hplan => ?_) h
  obtain ⟨hset, -⟩ := Plan.derived_of_ofActionSet hplan
  have hexact := Plan.exact_of_ofActionSet hplan
  refine ⟨by rw [← hset]; rfl, by rw [← hset]; rfl, fun hhandles => ⟨?_, ?_⟩⟩
  · exact nodup_memberNames_iff hset hexact hhandles
  · show ((states style plan).fields.map Declaration.name).Nodup ↔ _
    rw [fieldNames_states]
    exact nodup_names_iff hexact (fun _ _ _ _ => stateField_eq_stateField) hhandles
      fun type => !type.isOutput

open Header in
/-- A pose of both hands, and one that is read as a whole. -/
theorem Manifest.header_distinctNames_twoPoses :
    ∃ (manifest : Manifest) (text : String) (header : Header) (set : ActionSet)
        (structs : SetStructs),
      manifest.actionSets = [set] ∧ manifest.header .snake = .ok text ∧
      Header.parse text = some header ∧ header.sets = [structs] ∧
      (memberNames structs.handles).Nodup ∧ (structs.states.fields.map Declaration.name).Nodup := by
  let suggested : ProfileBindings := ⟨"/interaction_profiles/any",
    ⟨[("grip", ["/user/hand/left/input/grip/pose", "/user/hand/right/input/grip/pose"]),
      ("aim", ["/user/hand/left/input/aim/pose"])], by decide⟩⟩
  let set : ActionSet := ⟨"play", "Play", 0,
    [⟨"grip", "Grip", .pose, true⟩, ⟨"aim", "Aim", .pose, false⟩], [suggested]⟩
  have hplan : ∃ plan, Plan.ofActionSet set = .ok plan := ⟨_, rfl⟩
  obtain ⟨plan, hplan⟩ := hplan
  obtain ⟨text, hheader⟩ := exists_header_singleton .snake hplan
  obtain ⟨header, hparse, hsets⟩ := header_distinctNames hheader
  obtain ⟨structs, ⟨-, -, hnames⟩, hall⟩ := forall₂_singleton_left_iff.1 hsets
  obtain ⟨hmembers, hstates⟩ := hnames (by decide)
  -- whatever the hands and subactions are, the names are different
  have hread : ∀ hand : Hand, ∀ action ∈ set.actions, ∀ whole ∈ set.actions,
      actionHandle .snake whole.name ≠ Style.snake.rename [action.name, hand.label] := by
    rintro (_ | _) <;> decide
  have hpath : ∀ hand : Hand, ∀ action ∈ set.actions,
      actionHandle .snake action.name ≠ handPath .snake hand := by
    rintro (_ | _) <;> decide
  have hcreator : ∀ subaction, ∀ action ∈ set.actions, ∀ pose ∈ set.actions,
      actionHandle .snake action.name ≠ spaceCreator .snake pose.name subaction := by
    rintro (_ | _ | _) <;> decide
  have hapart : ∀ kind, ReadsApart .snake set kind := fun _ action haction _ hand _ whole hwhole
    _ _ => hread hand action haction whole hwhole
  refine ⟨⟨[set]⟩, text, header, set, structs, rfl, hheader, hparse, hall, hmembers.2 ?_,
    hstates.2 (hapart _)⟩
  exact {
    owner := by decide
    hands := fun action haction _ _ hand _ => hpath hand action haction
    creators := fun action haction pose hpose _ subaction _ =>
      hcreator subaction action haction pose hpose
    poses := hapart _ }

/-- A set with an action named like the set, and one named like another action with a hand. -/
def ActionSet.freelyNamed : ActionSet where
  name := "play"
  localizedName := "Play"
  priority := 0
  actions := [⟨"ActionSet", "Menu", .boolean, false⟩, ⟨"grab", "Grab", .float, true⟩,
    ⟨"grab_LeftHand", "Grab left", .float, false⟩]
  profiles := [⟨"/interaction_profiles/any",
    ⟨[("grab", ["/user/hand/left/input/squeeze/value"])], by decide⟩⟩]

open Header in
/-- Different handles of actions are not enough: two members have the same identifier, and so
have two states. -/
theorem ActionSet.freelyNamed_repeats :
    ∃ (text : String) (header : Header) (structs : SetStructs),
      Manifest.header .pascal ⟨[freelyNamed]⟩ = .ok text ∧ Header.parse text = some header ∧
      header.sets = [structs] ∧
      structs.handles.name = handlesStruct .pascal freelyNamed.name ∧
      structs.states.name = statesStruct .pascal freelyNamed.name ∧
      (freelyNamed.actions.map fun action => actionHandle .pascal action.name).Nodup ∧
      ¬ (memberNames structs.handles).Nodup ∧
      ¬ (structs.states.fields.map Declaration.name).Nodup := by
  have hplan : ∃ plan, Plan.ofActionSet freelyNamed = .ok plan ∧
      ¬ (memberNames (handles .pascal plan)).Nodup ∧
      ¬ ((states .pascal plan).fields.map Declaration.name).Nodup :=
    ⟨_, rfl, by decide, by decide⟩
  obtain ⟨plan, hplan, hmembers, hstates⟩ := hplan
  have hset : plan.set = freelyNamed := (Plan.ofActionSet_eq_ok hplan).1
  obtain ⟨text, hheader, hparse⟩ := Manifest.exists_header_parse .pascal hplan
  refine ⟨text, _, _, hheader, hparse, rfl, ?_, ?_, by decide, hmembers, hstates⟩
  · rw [← hset]
    rfl
  · rw [← hset]
    rfl

end XrManifest
