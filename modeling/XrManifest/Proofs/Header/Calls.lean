import Mathlib.Data.Nat.Find
import XrManifest.Header.Calls
import XrManifest.Proofs.Cpp.Execution

/-!
# Calls behind calls

Generated code looks at `result` in front of each call and keeps the outcome of the call in
it. The main statement is `Method.stopsAtFailure`: a method of such code makes no call after
one that failed.
-/

namespace XrManifest.Cpp

open XrManifest.Header

/-! ## Guarded code -/

/-- The outcome that stands in `result` after a number of calls. -/
def outcome (answer : Nat → Int) : Nat → Int
  | 0 => 0
  | count + 1 => answer count

/-- The first failure is that of the call with the number `index`. -/
structure FirstFailure (answer : Nat → Int) (index : Nat) : Prop where
  before : ∀ earlier < index, Succeeded (answer earlier)
  failed : ¬ Succeeded (answer index)

/-- What a machine has done in front of which there were these statements: all of them, while
every call succeeded, and otherwise no call after the first that failed. -/
inductive Machine.Follows (world : Surroundings) (statements : List Statement)
    (machine : Machine) : Prop where
  | all
      (running : machine.returned = none)
      (succeeded : ∀ index < (nativeCalls statements).length, Succeeded (world.answer index))
      (done : machine.done = statements)
      (result : machine.result = outcome world.answer (nativeCalls statements).length)
  | stopped {index : Nat}
      (running : machine.returned = none)
      (bound : index < (nativeCalls statements).length)
      (failure : FirstFailure world.answer index)
      (calls : machine.calls = (nativeCalls statements).take (index + 1))
      (done : machine.done ⊆ statements)
      (result : machine.result = world.answer index)

/-- The outcome of a call of OpenXR is kept. -/
def Statement.Keeps (statement : Statement) : Prop :=
  ∃ function arguments, isNative function = true ∧ statement = keepResult function arguments

/-- A piece of code that makes at most one call of OpenXR, in the end of a branch for success,
and keeps its outcome. -/
def Code.Guarded : Code → Prop
  | .statement line => line.Quiet
  | .blank => True
  | .branch guard body => guard = .when .succeeded ∧
    (∀ statement ∈ body.dropLast, statement.Quiet) ∧
    ∀ statement ∈ body.getLast?, statement.Quiet ∨ statement.Keeps

/-- The first value of `result` is success, or the outcome of a call of OpenXR. -/
def Statement.Begins (statement : Statement) : Prop :=
  statement = startResult ∨ ∃ function arguments, isNative function = true ∧
    statement = .declare (.preset "XrResult" "result" (.call function arguments))

section
variable {world : Surroundings} {machine : Machine} {statements : List Statement}

/-- While all calls succeed, so does the outcome that is kept. -/
theorem outcome_succeeded {answer : Nat → Int} {count : Nat}
    (h : ∀ index < count, Succeeded (answer index)) : Succeeded (outcome answer count) := by
  cases count with
  | zero => exact Int.le_refl 0
  | succ count => exact h count (Nat.lt_succ_self count)

namespace Machine

/-- One more call succeeds, or is the first to fail. -/
theorem follows_call {statement : Statement} (call : String × List Operand)
    (hrunning : machine.returned = none)
    (hsucceeded : ∀ index < (nativeCalls statements).length, Succeeded (world.answer index))
    (hcall : statement.nativeCall? = some call) (hdone : machine.done = statements ++ [statement])
    (hresult : machine.result = world.answer (nativeCalls statements).length) :
    machine.Follows world (statements ++ [statement]) := by
  have hcalls : nativeCalls (statements ++ [statement]) = nativeCalls statements ++ [call] := by
    rw [nativeCalls_append]
    simp [nativeCalls, hcall]
  have hlength : (nativeCalls (statements ++ [statement])).length =
      (nativeCalls statements).length + 1 := by simp [hcalls]
  -- the call is the next one to be answered, so its answer decides which case holds
  by_cases hanswer : Succeeded (world.answer (nativeCalls statements).length)
  · refine .all hrunning ?_ hdone ?_
    · intro index hindex
      rw [hlength] at hindex
      rcases Nat.lt_succ_iff_lt_or_eq.1 hindex with hearlier | rfl
      · exact hsucceeded index hearlier
      · exact hanswer
    · rw [hresult, hlength]
      rfl
  · refine .stopped hrunning (by omega) ⟨hsucceeded, hanswer⟩ ?_ ?_ hresult
    · rw [calls, hdone, hcalls, List.take_of_length_le (by simp)]
    · rw [hdone]
      exact List.Subset.refl _

/-- A machine that has stopped goes on in any code in which it makes no call. -/
theorem follows_stopped {index : Nat} {more : List Statement}
    (hrunning : machine.returned = none) (hbound : index < (nativeCalls statements).length)
    (hfailure : FirstFailure world.answer index)
    (hcalls : machine.calls = (nativeCalls statements).take (index + 1))
    (hdone : machine.done ⊆ statements ++ more) (hresult : machine.result = world.answer index) :
    machine.Follows world (statements ++ more) := by
  refine .stopped hrunning ?_ hfailure ?_ hdone hresult
  · rw [nativeCalls_append, List.length_append]
    omega
  · rw [nativeCalls_append, List.take_append_of_le_length (by omega)]
    exact hcalls

/-- Quiet statements are done in any case. -/
theorem Follows.quiet {more : List Statement} (h : machine.Follows world statements)
    (hquiet : ∀ statement ∈ more, statement.Quiet) :
    (machine.steps world more).Follows world (statements ++ more) := by
  have hnone := nativeCalls_of_quiet hquiet
  cases h with
  | all hrunning hsucceeded hdone hresult =>
    rw [steps_of_quiet hrunning hquiet]
    have hcalls : nativeCalls (statements ++ more) = nativeCalls statements := by
      rw [nativeCalls_append, hnone, List.append_nil]
    exact .all hrunning (hcalls ▸ hsucceeded) (by rw [hdone]) (hcalls ▸ hresult)
  -- what was not done before is not done now either: the new statements make no calls
  | stopped hrunning hbound hfailure hcalls hdone hresult =>
    rw [steps_of_quiet hrunning hquiet]
    refine follows_stopped hrunning hbound hfailure ?_ ?_ hresult
    · rw [calls, nativeCalls_append, hnone, List.append_nil]
      exact hcalls
    · exact List.append_subset.2 ⟨fun _ hmem => List.mem_append_left _ (hdone hmem),
        List.subset_append_right _ _⟩

/-- The body of a branch for success is done while every call succeeded. -/
theorem Follows.body {body : List Statement} (hrunning : machine.returned = none)
    (hsucceeded : ∀ index < (nativeCalls statements).length, Succeeded (world.answer index))
    (hdone : machine.done = statements)
    (hresult : machine.result = outcome world.answer (nativeCalls statements).length)
    (hfront : ∀ statement ∈ body.dropLast, statement.Quiet)
    (hlast : ∀ statement ∈ body.getLast?, statement.Quiet ∨ statement.Keeps) :
    (machine.steps world body).Follows world (statements ++ body) := by
  have hfollows : machine.Follows world statements := .all hrunning hsucceeded hdone hresult
  rcases List.eq_nil_or_concat body with rfl | ⟨front, last, rfl⟩
  · simpa [steps] using hfollows
  rw [List.concat_eq_append] at *
  rw [List.dropLast_concat] at hfront
  rcases hlast last (by simp) with hquiet | ⟨function, arguments, hnative, rfl⟩
  · apply hfollows.quiet
    intro statement hstatement
    rcases List.mem_append.1 hstatement with hmem | hmem
    · exact hfront statement hmem
    · rwa [List.mem_singleton.1 hmem]
  · -- the call comes behind quiet statements
    have hnone := nativeCalls_of_quiet hfront
    have hcalls : nativeCalls (statements ++ front) = nativeCalls statements := by
      rw [nativeCalls_append, hnone, List.append_nil]
    rw [steps_append, steps_of_quiet hrunning hfront, ← List.append_assoc, hdone]
    refine follows_call (function, arguments) ?_ (hcalls ▸ hsucceeded) ?_ ?_ ?_
    · simp [steps, step, hrunning, keepResult, Statement.returned?]
    · simp [keepResult, Statement.nativeCall?, Statement.call?, hnative]
    · simp [steps, step, hrunning]
    · simp [steps, step, hrunning, keepResult, Statement.kept?, eval, hnative, calls]

/-- A piece of guarded code. -/
theorem Follows.code {code : Code} (h : machine.Follows world statements) (hcode : code.Guarded)
    (taken : Bool) (rest : List Code) :
    ∃ (next : Machine) (taken' : Bool),
      machine.run world taken (code :: rest) = next.run world taken' rest ∧
        next.Follows world (statements ++ code.statements) := by
  cases code with
  | blank => exact ⟨machine, taken, rfl, by simpa [Code.statements] using h⟩
  | statement statement =>
    refine ⟨_, _, rfl, ?_⟩
    exact h.quiet (List.forall_mem_singleton.2 hcode)
  | branch guard body =>
    obtain ⟨rfl, hfront, hlast⟩ := hcode
    cases h with
    | all hrunning hsucceeded hdone hresult =>
      have henters : machine.enters world taken (.when .succeeded) = true := by
        simp [enters, holds, hresult, outcome_succeeded hsucceeded]
      refine ⟨machine.steps world body, true, by rw [run, if_pos henters], ?_⟩
      exact Follows.body hrunning hsucceeded hdone hresult hfront hlast
    -- behind a failure the guard of a branch does not hold, and the branch is passed over
    | stopped hrunning hbound hfailure hcalls hdone hresult =>
      have henters : machine.enters world taken (.when .succeeded) = false := by
        simp [enters, holds, hresult, hfailure.failed]
      refine ⟨machine, false, by rw [run, if_neg (by simp [henters])], ?_⟩
      exact follows_stopped hrunning hbound hfailure hcalls
        (List.subset_append_of_subset_left _ hdone) hresult

/-- Guarded code, piece by piece. -/
theorem Follows.codes {codes : List Code} (h : machine.Follows world statements)
    (hcodes : ∀ code ∈ codes, code.Guarded) (taken : Bool) (rest : List Code) :
    ∃ (next : Machine) (taken' : Bool),
      machine.run world taken (codes ++ rest) = next.run world taken' rest ∧
        next.Follows world (statements ++ codes.flatMap Code.statements) := by
  -- the last branch taken differs from piece to piece, so it is general in the induction
  induction codes generalizing machine statements taken with
  | nil => exact ⟨machine, taken, rfl, by simpa using h⟩
  | cons code codes ih =>
    obtain ⟨next, taken', hrun, hnext⟩ := h.code (hcodes code List.mem_cons_self) taken
      (codes ++ rest)
    obtain ⟨last, taken'', hlast, hfollows⟩ := ih hnext
      (fun other hother => hcodes other (List.mem_cons_of_mem code hother)) taken'
    refine ⟨last, taken'', by rw [List.cons_append, hrun, hlast], ?_⟩
    rw [List.flatMap_cons, ← List.append_assoc]
    exact hfollows

/-- The first value of `result` comes behind quiet statements. -/
theorem follows_begin (world : Surroundings) {front : List Statement} {first : Statement}
    (hfront : ∀ statement ∈ front, statement.Quiet) (hfirst : first.Begins) :
    ((Machine.mk world.initial [] none).steps world (front ++ [first])).Follows world
      (front ++ [first]) := by
  have hnone := nativeCalls_of_quiet hfront
  have hsucceeded : ∀ index < (nativeCalls front).length, Succeeded (world.answer index) := by
    simp [hnone]
  -- a method begins with a result of success or with a first call
  rcases hfirst with rfl | ⟨function, arguments, hnative, rfl⟩
  · have hcalls : nativeCalls (front ++ [startResult]) = [] := by
      rw [nativeCalls_append, hnone]
      rfl
    rw [steps_append, steps_of_quiet rfl hfront]
    refine .all ?_ (by simp [hcalls]) ?_ ?_
    · simp [steps, step, startResult, Statement.returned?]
    · simp [steps, step]
    · rw [hcalls]
      simp [steps, step, startResult, Statement.kept?, eval, outcome]
  · rw [steps_append, steps_of_quiet rfl hfront]
    refine follows_call (function, arguments) ?_ hsucceeded ?_ ?_ ?_
    · simp [steps, step, Statement.returned?]
    · simp [Statement.nativeCall?, Statement.call?, hnative]
    · simp [steps, step]
    · simp [steps, step, Statement.kept?, eval, hnative, calls]

end Machine

/-! ## Methods that stop at the first failure -/

/-- While all calls succeed, the method does all statements and returns the last outcome.
Otherwise it makes no call after the first that fails, and returns its outcome. -/
structure Method.StopsAtFailure (method : Method) : Prop where
  succeeds : ∀ world : Surroundings,
    (∀ index < (nativeCalls method.statements).length, Succeeded (world.answer index)) →
      (method.run world).done = method.statements ∧
        (method.run world).returned =
          some (outcome world.answer (nativeCalls method.statements).length)
  fails : ∀ (world : Surroundings) (index : Nat),
    index < (nativeCalls method.statements).length → FirstFailure world.answer index →
      (method.run world).calls = (nativeCalls method.statements).take (index + 1) ∧
        (method.run world).returned = some (world.answer index)

/-- A method starts with quiet statements and the first value of `result`, goes on with guarded
code, and ends with other code. -/
structure Method.Shape (method : Method) (front : List Statement) (first : Statement)
    (codes rest : List Code) : Prop where
  body : method.body = (front ++ [first]).map .statement ++ (codes ++ rest)
  front : ∀ statement ∈ front, statement.Quiet
  first : first.Begins
  codes : ∀ code ∈ codes, code.Guarded

/-- There is one first failure at most. -/
theorem FirstFailure.unique {answer : Nat → Int} {index other : Nat}
    (h : FirstFailure answer index) (hother : FirstFailure answer other) : index = other := by
  rcases Nat.lt_trichotomy index other with hlt | heq | hlt
  · exact absurd (hother.before index hlt) h.failed
  · exact heq
  · exact absurd (h.before other hlt) hother.failed

/-- Where a call fails, there is a first that does. -/
theorem exists_firstFailure {answer : Nat → Int} {index : Nat} (h : ¬ Succeeded (answer index)) :
    ∃ first ≤ index, FirstFailure answer first := by
  have hfailure : ∃ index, ¬ Succeeded (answer index) := ⟨index, h⟩
  refine ⟨Nat.find hfailure, Nat.find_min' hfailure h, ?_, Nat.find_spec hfailure⟩
  intro earlier hearlier
  exact not_not.1 (Nat.find_min hfailure hearlier)

/-- In front of the code at its end, a method stops at the first failure. -/
theorem Method.Shape.follows {method : Method} {front : List Statement} {first : Statement}
    {codes rest : List Code} (h : method.Shape front first codes rest) (world : Surroundings) :
    ∃ (machine : Machine) (taken : Bool), method.run world = machine.run world taken rest ∧
      machine.Follows world ((front ++ [first]) ++ codes.flatMap Code.statements) := by
  have hbegin := Machine.follows_begin world h.front h.first
  obtain ⟨machine, taken, hrun, hfollows⟩ := hbegin.codes h.codes false rest
  refine ⟨machine, taken, ?_, hfollows⟩
  rw [Method.run, h.body, Machine.run_statements, hrun]

/-- A machine that still runs returns what `result` holds. -/
theorem Machine.run_returnResult (hrunning : machine.returned = none) (taken : Bool) :
    machine.run world taken [.statement returnResult] =
      { machine with
        done := machine.done ++ [returnResult]
        returned := some machine.result } := by
  simp [run, step, hrunning, returnResult, Statement.kept?, Statement.returned?, eval]

/-- Code that looks at `result` in front of each call makes no call after one that failed. -/
theorem Method.stopsAtFailure {method : Method} {front : List Statement} {first : Statement}
    {codes : List Code} (h : method.Shape front first codes [.statement returnResult]) :
    method.StopsAtFailure := by
  have hstatements : method.statements =
      ((front ++ [first]) ++ codes.flatMap Code.statements) ++ [returnResult] := by
    simp [Method.statements, h.body, Code.statements, List.flatMap_map]
  have hcalls : nativeCalls method.statements =
      nativeCalls ((front ++ [first]) ++ codes.flatMap Code.statements) := by
    rw [hstatements, nativeCalls_append]
    exact List.append_nil _
  -- of the two ways in which a machine follows the method, each part excludes one
  refine ⟨fun world hsucceeded => ?_, fun world index hbound hfailure => ?_⟩
  · obtain ⟨machine, taken, hrun, hfollows⟩ := h.follows world
    rw [hcalls] at hsucceeded ⊢
    cases hfollows with
    | all hrunning _ hdone hresult =>
      rw [hrun, Machine.run_returnResult hrunning, hstatements, hdone, hresult]
      exact ⟨rfl, rfl⟩
    | stopped _ hbound hfailure =>
      exact absurd (hsucceeded _ hbound) hfailure.failed
  · obtain ⟨machine, taken, hrun, hfollows⟩ := h.follows world
    rw [hcalls] at hbound ⊢
    cases hfollows with
    | all _ hsucceeded => exact absurd (hsucceeded index hbound) hfailure.failed
    | stopped hrunning _ hother hmade _ hresult =>
      rcases hother.unique hfailure with rfl
      rw [hrun, Machine.run_returnResult hrunning, hresult]
      refine ⟨?_, rfl⟩
      rw [← hmade, Machine.calls, nativeCalls_append]
      exact List.append_nil _

/-- The body of a last branch is left out once a call has failed. -/
theorem Method.done_of_failure (world : Surroundings) {method : Method} {front : List Statement}
    {first : Statement} {codes : List Code} {body : List Statement}
    (h : method.Shape front first codes
      [ifSucceeded body, .blank, .statement returnResult])
    {index : Nat}
    (hbound : index < (nativeCalls ((front ++ [first]) ++ codes.flatMap Code.statements)).length)
    (hfailure : FirstFailure world.answer index) :
    (method.run world).done ⊆
      ((front ++ [first]) ++ codes.flatMap Code.statements) ++ [returnResult] := by
  obtain ⟨machine, taken, hrun, hfollows⟩ := h.follows world
  cases hfollows with
  | all _ hsucceeded => exact absurd (hsucceeded index hbound) hfailure.failed
  | stopped hrunning _ hother _ hdone hresult =>
    -- the last branch is not entered, as a call in front of it has failed
    have henters : machine.enters world taken (.when .succeeded) = false := by
      simp [Machine.enters, Machine.holds, hresult, hother.failed]
    rw [hrun, ifSucceeded, Machine.run, if_neg (by simp [henters]), Machine.run,
      Machine.run_returnResult hrunning]
    exact List.append_subset.2 ⟨List.subset_append_of_subset_left _ hdone,
      List.subset_append_right _ _⟩

end
end XrManifest.Cpp
