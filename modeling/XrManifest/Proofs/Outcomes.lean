import Mathlib.Data.List.Forall2

/-!
# Outcomes of fallible steps

When a computation that can fail yields a result: each lemma takes a sequence of
steps apart into the results of its steps.
-/

namespace XrManifest

variable {ε ε' α β : Type}

/-- Two steps succeed when each of them does. -/
theorem bind_eq_ok {step : Except ε α} {next : α → Except ε β} {b : β} :
    step >>= next = .ok b ↔ ∃ a, step = .ok a ∧ next a = .ok b := by
  cases step with
  | error e => exact ⟨fun h => (nomatch h), fun ⟨_, h, _⟩ => (nomatch h)⟩
  | ok a =>
    constructor
    · intro h
      exact ⟨a, rfl, h⟩
    · rintro ⟨_, h, hnext⟩
      rcases Except.ok.inj h with rfl
      exact hnext

/-- Two steps fail with the first, or with the second behind the first. -/
theorem bind_eq_error {step : Except ε α} {next : α → Except ε β} {e : ε} :
    step >>= next = .error e ↔
      step = .error e ∨ ∃ a, step = .ok a ∧ next a = .error e := by
  cases step with
  | error e' =>
    constructor
    · intro h
      have hsame : e' = e := Except.error.inj h
      exact .inl (congrArg Except.error hsame)
    · rintro (h | ⟨_, h, _⟩)
      · exact congrArg Except.error (Except.error.inj h)
      · cases h
  | ok a =>
    constructor
    · intro h
      exact .inr ⟨a, rfl, h⟩
    · rintro (h | ⟨_, h, hnext⟩)
      · cases h
      · rcases Except.ok.inj h with rfl
        exact hnext

theorem ok_bind (a : α) (next : α → Except ε β) : .ok a >>= next = next a := rfl

theorem map_eq_ok {step : Except ε α} {f : α → β} {b : β} :
    step.map f = .ok b ↔ ∃ a, step = .ok a ∧ f a = b := by
  cases step with
  | error e => exact ⟨fun h => (nomatch h), fun ⟨_, h, _⟩ => (nomatch h)⟩
  | ok a => simp [Except.map]

theorem map_eq_error {step : Except ε α} {f : α → β} {e : ε} :
    step.map f = .error e ↔ step = .error e := by
  cases step <;> simp [Except.map]

/-- A change of the errors does not change successes. -/
theorem mapError_eq_ok {step : Except ε α} {f : ε → ε'} {a : α} :
    step.mapError f = .ok a ↔ step = .ok a := by
  cases step <;> simp [Except.mapError]

/-- A list of steps succeeds when each of them does, with their results in order. -/
theorem mapM_eq_ok {f : α → Except ε β} {as : List α} {bs : List β} :
    as.mapM f = .ok bs ↔ List.Forall₂ (fun a b => f a = .ok b) as bs := by
  induction as generalizing bs with
  | nil =>
    rw [List.mapM_nil, List.forall₂_nil_left_iff]
    exact ⟨fun h => (Except.ok.inj h).symm, fun h => h ▸ rfl⟩
  | cons a as ih =>
    rw [List.mapM_cons, bind_eq_ok]
    constructor
    · rintro ⟨b, hb, h⟩
      rcases bind_eq_ok.1 h with ⟨bs, hbs, h⟩
      rcases Except.ok.inj h with rfl
      exact .cons hb (ih.1 hbs)
    · rintro (_ | ⟨hb, hbs⟩)
      exact ⟨_, hb, bind_eq_ok.2 ⟨_, ih.2 hbs, rfl⟩⟩

/-- The results of the steps of a list can be changed afterwards. -/
theorem mapM_map {γ : Type} (f : α → Except ε β) (g : β → γ) (as : List α) :
    as.mapM (fun a => (f a).map g) = (as.mapM f).map (List.map g) := by
  induction as with
  | nil => rfl
  | cons a as ih =>
    rw [List.mapM_cons, List.mapM_cons, ih]
    cases f a with
    | error e => rfl
    | ok b => cases as.mapM f <;> rfl

/-- Two lists of steps fail together when the first fails, or the second behind it. -/
theorem mapM_append_eq_error {f : α → Except ε β} {first second : List α} {e : ε} :
    (first ++ second).mapM f = .error e ↔
      first.mapM f = .error e ∨
        (∃ bs, first.mapM f = .ok bs) ∧ second.mapM f = .error e := by
  rw [List.mapM_append, bind_eq_error]
  have hlast : ∀ bs, (second.mapM f >>= fun cs => pure (bs ++ cs)) = .error e ↔
      second.mapM f = .error e := by
    intro bs
    cases second.mapM f with
    | error e' => exact Iff.rfl
    | ok cs => exact ⟨fun h => (nomatch h), fun h => (nomatch h)⟩
  simp only [hlast, exists_and_right]

/-- When one step of a list is taken for another input, only its own result changes. -/
theorem mapM_middle {f : α → Except ε β} {front back : List α} {a : α} {bs : List β}
    (h : (front ++ a :: back).mapM f = .ok bs) :
    ∃ left b right, bs = left ++ b :: right ∧ left.length = front.length ∧ f a = .ok b ∧
      ∀ other, (front ++ other :: back).mapM f = (f other).map fun c => left ++ c :: right := by
  rw [List.mapM_append] at h
  obtain ⟨left, hleft, h⟩ := bind_eq_ok.1 h
  obtain ⟨rest, hrest, h⟩ := bind_eq_ok.1 h
  obtain rfl := Except.ok.inj h
  rw [List.mapM_cons] at hrest
  obtain ⟨b, hb, hrest⟩ := bind_eq_ok.1 hrest
  obtain ⟨right, hright, hrest⟩ := bind_eq_ok.1 hrest
  obtain rfl := Except.ok.inj hrest
  -- only the step in the middle is another one
  refine ⟨left, b, right, rfl, (mapM_eq_ok.1 hleft).length_eq.symm, hb, fun other => ?_⟩
  rw [List.mapM_append, List.mapM_cons, hleft, hright]
  cases f other <;> rfl

/-- What follows for the members of two lists follows for the lists. -/
theorem forall₂_imp_of_mem {R S : α → β → Prop} {as : List α} {bs : List β}
    (h : List.Forall₂ R as bs) (hRS : ∀ a ∈ as, ∀ b ∈ bs, R a b → S a b) :
    List.Forall₂ S as bs := by
  induction h with
  | nil => exact .nil
  | cons hstep _ ih =>
    refine .cons (hRS _ List.mem_cons_self _ List.mem_cons_self hstep) (ih ?_)
    exact fun a ha b hb => hRS a (List.mem_cons_of_mem _ ha) b (List.mem_cons_of_mem _ hb)

/-- Only one element is related to each of a list of one. -/
theorem forall₂_singleton_left_iff {R : α → β → Prop} {a : α} {bs : List β} :
    List.Forall₂ R [a] bs ↔ ∃ b, R a b ∧ bs = [b] := by
  rw [List.forall₂_cons_left_iff]
  constructor
  · rintro ⟨b, rest, hb, hrest, rfl⟩
    rcases List.forall₂_nil_left_iff.1 hrest with rfl
    exact ⟨b, hb, rfl⟩
  · rintro ⟨b, hb, rfl⟩
    exact ⟨b, [], hb, .nil, rfl⟩

/-- Properties that go along with a relation hold of all members of both lists or of neither. -/
theorem forall₂_forall_iff {R : α → β → Prop} {P : α → Prop} {Q : β → Prop} {as : List α}
    {bs : List β} (h : List.Forall₂ R as bs) (hR : ∀ a b, R a b → (P a ↔ Q b)) :
    (∀ a ∈ as, P a) ↔ ∀ b ∈ bs, Q b := by
  induction h with
  | nil => simp
  | cons hstep _ ih => rw [List.forall_mem_cons, List.forall_mem_cons, hR _ _ hstep, ih]

/-- Results that tell which step they come from give the steps back. -/
theorem map_of_mapM {f : α → Except ε β} {g : β → α} (hg : ∀ a b, f a = .ok b → g b = a)
    {as : List α} {bs : List β} (h : as.mapM f = .ok bs) : bs.map g = as := by
  have hsteps := mapM_eq_ok.1 h
  clear h
  induction hsteps with
  | nil => rfl
  | cons hstep _ ih => rw [List.map_cons, hg _ _ hstep, ih]

/-- Every step of a list that succeeds has its result. -/
theorem exists_result_of_mapM {f : α → Except ε β} {as : List α} {bs : List β}
    (h : as.mapM f = .ok bs) {a : α} (ha : a ∈ as) : ∃ b ∈ bs, f a = .ok b := by
  have hsteps := mapM_eq_ok.1 h
  clear h
  induction hsteps with
  | nil => cases ha
  | cons hstep _ ih =>
    rcases List.mem_cons.1 ha with rfl | ha
    · exact ⟨_, List.mem_cons_self, hstep⟩
    · rcases ih ha with ⟨b, hb, hstep⟩
      exact ⟨b, List.mem_cons_of_mem _ hb, hstep⟩

/-- Every result of a list is that of one of its steps. -/
theorem exists_step_of_mapM {f : α → Except ε β} {as : List α} {bs : List β}
    (h : as.mapM f = .ok bs) {b : β} (hb : b ∈ bs) : ∃ a ∈ as, f a = .ok b := by
  have hsteps := mapM_eq_ok.1 h
  clear h
  induction hsteps with
  | nil => cases hb
  | cons hstep _ ih =>
    rcases List.mem_cons.1 hb with rfl | hb
    · exact ⟨_, List.mem_cons_self, hstep⟩
    · rcases ih hb with ⟨a, ha, hstep⟩
      exact ⟨a, List.mem_cons_of_mem _ ha, hstep⟩

/-- A list of steps that fails has the failure of one of them. -/
theorem exists_failure_of_mapM {f : α → Except ε β} {as : List α} {e : ε}
    (h : as.mapM f = .error e) : ∃ a ∈ as, f a = .error e := by
  induction as with
  | nil => cases h
  | cons a as ih =>
    rw [List.mapM_cons] at h
    rcases bind_eq_error.1 h with hstep | ⟨b, -, hrest⟩
    · exact ⟨a, List.mem_cons_self, hstep⟩
    · rcases bind_eq_error.1 hrest with hsteps | ⟨bs, -, hpure⟩
      · obtain ⟨a', ha', hfailure⟩ := ih hsteps
        exact ⟨a', List.mem_cons_of_mem _ ha', hfailure⟩
      · cases hpure

/-- A fold fails at the first step that fails. -/
theorem foldlM_eq_error {σ : Type} {step : σ → α → Except ε σ} {as : List α} {start : σ}
    {e : ε} :
    as.foldlM step start = .error e ↔
      ∃ before a after state, as = before ++ a :: after ∧
        before.foldlM step start = .ok state ∧ step state a = .error e := by
  induction as generalizing start with
  | nil =>
    constructor
    · intro h
      cases h
    · rintro ⟨before, a, after, _, has, -⟩
      exact absurd has.symm (by simp)
  | cons first as ih =>
    rw [List.foldlM_cons, bind_eq_error]
    constructor
    · rintro (hfirst | ⟨next, hfirst, hrest⟩)
      · exact ⟨[], first, as, start, rfl, rfl, hfirst⟩
      · obtain ⟨before, a, after, state, rfl, hbefore, ha⟩ := ih.1 hrest
        refine ⟨first :: before, a, after, state, rfl, ?_, ha⟩
        rw [List.foldlM_cons, hfirst]
        exact hbefore
    · rintro ⟨before, a, after, state, has, hbefore, ha⟩
      -- the first step failed or is one of those in front
      cases before with
      | nil =>
        obtain ⟨rfl, rfl⟩ := List.cons.inj has
        rcases Except.ok.inj hbefore with rfl
        exact .inl ha
      | cons _ before =>
        obtain ⟨rfl, rfl⟩ := List.cons.inj has
        rw [List.foldlM_cons] at hbefore
        obtain ⟨next, hfirst, hrest⟩ := bind_eq_ok.1 hbefore
        exact .inr ⟨next, hfirst, ih.2 ⟨before, a, after, state, rfl, hrest, ha⟩⟩

/-! ## Failures -/

/-- The failure of a step, if it fails. -/
def failure? : Except ε α → Option ε
  | .error e => some e
  | .ok _ => none

theorem failure?_eq_some {step : Except ε α} {e : ε} :
    failure? step = some e ↔ step = .error e := by
  cases step <;> simp [failure?]

/-- Without a failure there is a result. -/
theorem failure?_eq_none {step : Except ε α} : failure? step = none ↔ ∃ a, step = .ok a := by
  cases step <;> simp [failure?]

/-- Steps after which nothing can fail have the failure of the first. -/
theorem failure?_bind {step : Except ε α} {next : α → Except ε β}
    (hnext : ∀ a, step = .ok a → failure? (next a) = none) :
    failure? (step >>= next) = failure? step := by
  cases step with
  | error e => rfl
  | ok a => exact hnext a rfl

/-- A list of steps has the failure of the first that fails. -/
theorem failure?_mapM {f : α → Except ε β} (as : List α) :
    failure? (as.mapM f) = as.findSome? fun a => failure? (f a) := by
  induction as with
  | nil => rfl
  | cons a as ih =>
    rw [List.mapM_cons, List.findSome?_cons]
    cases ha : f a with
    | error e => rfl
    | ok b =>
      have hrest : failure? (as.mapM f >>= fun bs => pure (b :: bs)) = failure? (as.mapM f) :=
        failure?_bind fun bs _ => rfl
      exact hrest.trans ih

/-! ## Steps with a state -/

section
variable {σ : Type} {first : ExceptT ε (StateM σ) α} {next : α → ExceptT ε (StateM σ) β}
  {state after : σ}

/-- A step that succeeds hands the state on to the next. -/
theorem run_bind_of_ok {value : α} (h : first.run state = (.ok value, after)) :
    (first >>= next).run state = (next value).run after := by
  show StateT.bind first.run (ExceptT.bindCont next) state = _
  rw [StateT.bind, h]
  rfl

/-- A failure keeps the state at which it comes. -/
theorem run_bind_of_error {error : ε} (h : first.run state = (.error error, after)) :
    (first >>= next).run state = (.error error, after) := by
  show StateT.bind first.run (ExceptT.bindCont next) state = _
  rw [StateT.bind, h]
  rfl

end

end XrManifest
