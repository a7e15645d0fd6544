import XrManifest.Proofs.Cpp.Contents

/-!
# Running C++ code

A machine runs a method: it does the statements one after the other, and those of a branch
where its condition holds. It follows the variable `result` only; what OpenXR answers to a
call, and all other values, come from outside.
-/

namespace XrManifest.Cpp

/-! ## Calls of OpenXR -/

/-- The functions of OpenXR start with `xr`. -/
def isNative (function : String) : Bool := "xr".toList.isPrefixOf function.toList

/-- The call of OpenXR that a statement makes. -/
def Statement.nativeCall? (statement : Statement) : Option (String × List Operand) :=
  statement.call?.filter fun call => isNative call.1

def nativeCalls (statements : List Statement) : List (String × List Operand) :=
  statements.filterMap Statement.nativeCall?

theorem nativeCalls_append (first second : List Statement) :
    nativeCalls (first ++ second) = nativeCalls first ++ nativeCalls second :=
  List.filterMap_append

/-- What `XR_SUCCEEDED` tests. -/
def Succeeded (code : Int) : Prop := 0 ≤ code

instance (code : Int) : Decidable (Succeeded code) := inferInstanceAs (Decidable (0 ≤ code))

/-! ## Machines -/

/-- A machine: what the variable `result` holds, the statements that were done, and what was
returned. -/
structure Machine where
  result : Int
  done : List Statement
  returned : Option Int

namespace Machine

def calls (machine : Machine) : List (String × List Operand) := nativeCalls machine.done

end Machine

/-- What a method finds around it: the answers to the calls of OpenXR in the order in which
they are made, all values that do not come from these answers, and what `result` holds before
it is declared. -/
structure Surroundings where
  answer : Nat → Int
  value : Machine → Value → Int
  initial : Int

namespace Machine

variable (world : Surroundings)

/-- The value of an expression, which may be a call that comes next. -/
def eval (machine : Machine) : Value → Int
  | .operand (.word "XR_SUCCESS") => 0
  | .operand (.word "result") => machine.result
  | .call function arguments =>
    if isNative function then world.answer machine.calls.length
    else world.value machine (.call function arguments)
  | value => world.value machine value

/-- Whether a condition holds. -/
def holds (machine : Machine) : Condition → Bool
  | .succeeded => Succeeded machine.result
  | .equal left right =>
    machine.eval world (.operand left) = machine.eval world (.operand right)
  | .differ left right =>
    machine.eval world (.operand left) ≠ machine.eval world (.operand right)

end Machine

/-- What a statement stores in `result`, which is the only variable that is followed. -/
def Statement.kept? : Statement → Option Value
  | .declare (.preset "XrResult" "result" value) => some value
  | .assign (.word "result") value => some value
  | _ => none

/-- What a statement returns. -/
def Statement.returned? : Statement → Option Value
  | .returns value => some value
  | .returnsDefault _ => some (.braces [])
  | _ => none

namespace Machine

variable (world : Surroundings)

/-- Does a statement, unless the method has returned. -/
def step (machine : Machine) (statement : Statement) : Machine :=
  if machine.returned.isSome then machine
  else {
    result := (statement.kept?.map (machine.eval world)).getD machine.result
    done := machine.done ++ [statement]
    returned := statement.returned?.map (machine.eval world) }

/-- Does statements one after the other. -/
def steps (machine : Machine) (statements : List Statement) : Machine :=
  statements.foldl (step world) machine

/-- Whether the branch is entered. In a chain of branches, `taken` tells whether an earlier one
was. -/
def enters (machine : Machine) (taken : Bool) : Guard → Bool
  | .when condition => machine.holds world condition
  | .otherwiseWhen condition => !taken && machine.holds world condition
  | .otherwise => !taken

/-- Runs pieces of code one after the other. -/
def run (machine : Machine) (taken : Bool) : List Code → Machine
  | [] => machine
  | .statement statement :: rest => (machine.step world statement).run false rest
  | .blank :: rest => machine.run taken rest
  | .branch guard body :: rest =>
    if machine.enters world taken guard then (machine.steps world body).run true rest
    else machine.run (match guard with
      | .when _ => false
      | _ => taken) rest

end Machine

/-- The machine that has run a method. -/
def Method.run (method : Method) (world : Surroundings) : Machine :=
  Machine.run world ⟨world.initial, [], none⟩ false method.body

/-! ## Quiet statements -/

/-- The statement calls no function of OpenXR, leaves `result` alone and does not return. -/
structure Statement.Quiet (statement : Statement) : Prop where
  call : statement.nativeCall? = none
  kept : statement.kept? = none
  returned : statement.returned? = none

/-- Quiet statements make no calls. -/
theorem nativeCalls_of_quiet {statements : List Statement}
    (h : ∀ statement ∈ statements, statement.Quiet) : nativeCalls statements = [] :=
  List.filterMap_eq_nil_iff.2 fun statement hstatement => (h statement hstatement).call

section
variable {world : Surroundings} {machine : Machine}

/-- A quiet statement is done, and nothing else happens. -/
theorem Machine.step_of_quiet {statement : Statement} (hrunning : machine.returned = none)
    (h : statement.Quiet) :
    machine.step world statement = { machine with done := machine.done ++ [statement] } := by
  simp [step, hrunning, h.kept, h.returned]

theorem Machine.steps_cons (statement : Statement) (statements : List Statement) :
    machine.steps world (statement :: statements) =
      (machine.step world statement).steps world statements :=
  rfl

/-- Quiet statements are done one after the other. -/
theorem Machine.steps_of_quiet {statements : List Statement} (hrunning : machine.returned = none)
    (h : ∀ statement ∈ statements, statement.Quiet) :
    machine.steps world statements = { machine with done := machine.done ++ statements } := by
  induction statements generalizing machine with
  | nil => simp [steps]
  | cons statement statements ih =>
    have hrest := fun other hother => h other (List.mem_cons_of_mem statement hother)
    have hnext : ({ machine with done := machine.done ++ [statement] } : Machine).returned =
        none := hrunning
    rw [steps_cons, step_of_quiet hrunning (h statement List.mem_cons_self), ih hnext hrest,
      List.append_assoc, List.singleton_append]

/-- A machine can do statements in two turns. -/
theorem Machine.steps_append (first second : List Statement) :
    machine.steps world (first ++ second) = (machine.steps world first).steps world second :=
  List.foldl_append

/-- Statements in front of other code are done first. -/
theorem Machine.run_statements (statements : List Statement) (codes : List Code) :
    machine.run world false (statements.map .statement ++ codes) =
      (machine.steps world statements).run world false codes := by
  induction statements generalizing machine with
  | nil => rfl
  | cons statement statements ih =>
    rw [List.map_cons, List.cons_append, run, ih]
    rfl

end

end XrManifest.Cpp
