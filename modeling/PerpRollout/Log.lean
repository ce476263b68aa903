import PerpRollout.Failure

/-!
# Log lines

Operations tell what they do in log lines.  A line has a level, the environment
it is about, if any, and a message.  `Logged` is the outcome of an operation
together with the lines it logged; the lines logged before a failure stay.
-/

namespace PerpRollout

namespace Log

/-- The levels, from the least to the most severe. -/
inductive Level where
  | trace | debug | info | success | warning | error | critical
  deriving DecidableEq, Repr

namespace Level

/-- All levels, from the least to the most severe. -/
def all : List Level := [.trace, .debug, .info, .success, .warning, .error, .critical]

def name : Level → String
  | .trace => "TRACE"
  | .debug => "DEBUG"
  | .info => "INFO"
  | .success => "SUCCESS"
  | .warning => "WARNING"
  | .error => "ERROR"
  | .critical => "CRITICAL"

def severity : Level → Nat
  | .trace => 5
  | .debug => 10
  | .info => 20
  | .success => 25
  | .warning => 30
  | .error => 40
  | .critical => 50

def ofName? (name : String) : Option Level :=
  all.find? fun l => l.name = name

/-- The level of that name, or the failure that there is none. -/
def parse (name : String) : Except Failure Level :=
  match ofName? name with
  | some l => .ok l
  | none => .error (.unknownLevel name)

end Level

structure Line where
  level : Level
  environment : Option String
  message : String
  deriving DecidableEq, Repr

/-- A line about no environment in particular. -/
def line (level : Level) (message : String) : Line := ⟨level, none, message⟩

/-- A line about an environment; an empty name is no environment. -/
def bound (environment : String) (level : Level) (message : String) : Line :=
  ⟨level, if environment.isEmpty then none else some environment, message⟩

/-- What a line without an environment shows in its place. -/
def noEnvironment : String := "-"

/-- The line as text: its level in eight columns, its environment, its message. -/
def Line.text (l : Line) : String :=
  let name := l.level.name
  name ++ String.ofList (List.replicate (8 - name.length) ' ') ++ " | " ++
    l.environment.getD noEnvironment ++ " | " ++ l.message

/-- The lines that are at least as severe as the level. -/
def atLeast (level : Level) (lines : List Line) : List Line :=
  lines.filter fun l => level.severity ≤ l.level.severity

end Log

/-- The outcome of an operation and the lines it logged. -/
structure Logged (α : Type) where
  lines : List Log.Line
  result : Except Failure α

namespace Logged

variable {α β : Type}

def pure (a : α) : Logged α := ⟨[], .ok a⟩

/-- Goes on after a success; the lines of both parts stay in order. -/
def bind (x : Logged α) (f : α → Logged β) : Logged β :=
  match x.result with
  | .ok a => ⟨x.lines ++ (f a).lines, (f a).result⟩
  | .error e => ⟨x.lines, .error e⟩

instance : Monad Logged where
  pure := Logged.pure
  bind := Logged.bind

/-- Outcomes with the same lines and the same result are the same. -/
theorem ext {x y : Logged α} (lines : x.lines = y.lines) (result : x.result = y.result) :
    x = y := by
  obtain ⟨_, _⟩ := x
  obtain ⟨_, _⟩ := y
  exact congr (congrArg mk lines) result

theorem result_bind (x : Logged α) (f : α → Logged β) :
    (x >>= f).result = x.result >>= fun a => (f a).result := by
  change (bind x f).result = _
  unfold bind
  cases x.result <;> rfl

theorem lines_bind_of_ok {x : Logged α} {a : α} (h : x.result = .ok a) (f : α → Logged β) :
    (x >>= f).lines = x.lines ++ (f a).lines := by
  change (bind x f).lines = _
  simp only [bind, h]

theorem lines_bind_of_error {x : Logged α} {e : Failure} (h : x.result = .error e)
    (f : α → Logged β) : (x >>= f).lines = x.lines := by
  change (bind x f).lines = _
  simp only [bind, h]

instance : LawfulMonad Logged := LawfulMonad.mk' Logged
  (fun ⟨lines, result⟩ => by
    cases result
    · rfl
    · exact ext (List.append_nil lines) rfl)
  (fun a f => ext (List.nil_append (f a).lines) rfl)
  (fun ⟨lines, result⟩ f g => by
    cases result with
    | error e => rfl
    | ok a =>
      change bind (bind _ f) g = bind _ fun a => bind (f a) g
      simp only [bind]
      cases (f a).result
      · rfl
      · exact ext (List.append_assoc _ _ _) rfl)

def ofExcept (r : Except Failure α) : Logged α := ⟨[], r⟩

instance : MonadLift (Except Failure) Logged where
  monadLift := ofExcept

def log (lines : List Log.Line) : Logged Unit := ⟨lines, .ok ()⟩

def fail (e : Failure) : Logged α := ⟨[], .error e⟩

end Logged

end PerpRollout
