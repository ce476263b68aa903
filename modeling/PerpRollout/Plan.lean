import PerpRollout.Rules

/-!
# The order of a deployment

A deployer walks the steps in order, and puts each new address into the record
before the next step.  Here is what a record says about that walk: what each
step still waits for, which step comes next, and the message of a step.
-/

namespace PerpRollout.Record

/-- The modules whose addresses the step needs and the record does not hold. -/
def missingFor (r : Record) (s : Step) : List Module :=
  s.requirements.filter fun m => !r.isResolved m

def isReady (r : Record) (s : Step) : Bool :=
  (r.missingFor s).isEmpty

/-- Every step in order, with the modules it waits for. -/
def plan (r : Record) : List (Step × List Module) :=
  Step.order.map fun s => (s, r.missingFor s)

/-- The step is done: it is listed as completed, or the address it yields is in
the record already. -/
def isDone (r : Record) (completed : List Step) (s : Step) : Bool :=
  completed.contains s || (s.output?.map r.isResolved).getD false

def nextStep? (r : Record) (completed : List Step) : Option Step :=
  Step.order.find? fun s => !r.isDone completed s

/-- The next step after those that the values name. -/
def nextAfter (r : Record) (names : List Json) : Except Failure (Option Step) := do
  return r.nextStep? (← names.mapM Step.parse)

/-- The message of a step, for a record that passes the rules of the step. -/
def stepMessage (r : Record) (env : Option String) (s : Step) : Logged Json := do
  let _ ← Rules.validate r env (.step s)
  return r.sectionJson s.message

/-- The message of the step that a value names. -/
def message (r : Record) (env : Option String) (step : Json) : Logged Json := do
  let s ← Step.parse step
  r.stepMessage env s

end PerpRollout.Record
