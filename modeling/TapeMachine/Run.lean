import TapeMachine.Table
import TapeMachine.Tape

/-!
# Runs

A run starts in the table's start state and performs one transition after the other until it
reaches a halting state, finds no rule to follow, has used up its steps, or is interrupted. Whether
it has been interrupted is looked at only now and then, every 1024 steps.

`verdict` decides what happens next, `Snapshot.perform` does it, and `advance` is both, while an
observer sees each step; `runFrom` repeats it. A run without a bound need not end, so `runFrom` is a
partial function: it is `none` exactly on the runs that go on forever.
-/

namespace TapeMachine

/-! ### Results -/

/-- How a run ended. -/
inductive Reason where
  | haltState
  | noTransition
  | noState
  | stepLimit
  | interrupted
deriving DecidableEq

/-- The name of a reason. -/
def Reason.name : Reason → String
  | .haltState => "halt_state"
  | .noTransition => "no_transition"
  | .noState => "no_state"
  | .stepLimit => "step_limit"
  | .interrupted => "interrupted"

/-- The outcome of running one input: the final tape, a label for the final state, how the run
ended and how many transitions it performed. -/
structure Result where
  input : String
  tape : String
  state : String
  reason : Reason
  steps : Nat
deriving DecidableEq

/-- The label when no rule of the state matches the symbol. -/
def noTransitionLabel (state symbol : String) : String :=
  "halt (no matching transition for " ++ state ++ "(" ++ symbol ++ "))"

/-- The label when the state has no rules. -/
def noStateLabel (state : String) : String :=
  "halt (no matching state for " ++ state ++ ")"

/-- The label when the steps are used up. -/
def stepLimitLabel (limit : Int) : String :=
  "halt (step limit " ++ toString limit ++ " exceeded)"

/-- The label when the run was interrupted. -/
def interruptedLabel (cause : String) : String :=
  "halt (interrupted: " ++ cause ++ ")"

/-- The arguments that stand for the empty tape. -/
def emptyInputs : List String := ["epsilon", "\\epsilon"]

/-- The input an argument stands for. -/
def normalizeInput (arg : String) : String :=
  if emptyInputs.contains arg then "" else arg

/-! ### Interruptions -/

/-- Why work is broken off from outside. -/
inductive StopCause where
  | cancelled
  | deadline
deriving DecidableEq

/-- The wording of a cause. -/
def StopCause.message : StopCause → String
  | .cancelled => "context canceled"
  | .deadline => "context deadline exceeded"

/-- An interruption that takes place once the given number of steps have been performed. -/
structure Interrupt where
  after : Nat
  cause : StopCause
deriving DecidableEq

/-- How many steps lie between two looks at whether the run has been interrupted. -/
def checkInterval : Nat := 1024

/-- The cause that ends a run at a number of steps. -/
def Interrupt.due? (i : Option Interrupt) (steps : Nat) : Option StopCause :=
  match i with
  | none => none
  | some i => if steps % checkInterval = 0 ∧ i.after ≤ steps then some i.cause else none

/-! ### One step -/

/-- How a run is carried out. A limit of zero means no limit. -/
structure RunOptions where
  limit : Nat := 0
  sorted : Bool := false
  interrupt : Option Interrupt := none

/-- A machine in the middle of a run. -/
structure Snapshot where
  state : String
  tape : Tape
  steps : Nat := 0

/-- A step as an observer sees it: its number, where the head was, and what was read and done. -/
structure StepEvent where
  step : Nat
  head : Int
  symbol : String
  transition : Transition
deriving DecidableEq

/-- What happens next in a run. -/
inductive Verdict where
  | stop (reason : Reason) (label : String)
  | follow (t : Transition)
deriving DecidableEq

/-- Decides what happens next. An interruption comes first, then a state without rules, then a
symbol without a rule, and only then the limit: a machine that has nothing more to do stops by
itself. -/
def verdict (table : Table) (opts : RunOptions) (s : Snapshot) : Verdict :=
  match Interrupt.due? opts.interrupt s.steps with
  | some cause => .stop .interrupted (interruptedLabel cause.message)
  | none =>
    match table.groups.lookup s.state with
    | none => .stop .noState (noStateLabel s.state)
    | some rules =>
      match Table.select rules s.tape.read with
      | none => .stop .noTransition (noTransitionLabel s.state s.tape.read)
      | some t =>
        if 0 < opts.limit ∧ opts.limit ≤ s.steps then
          .stop .stepLimit (stepLimitLabel opts.limit)
        else .follow t

/-- Performs a transition. -/
def Snapshot.perform (s : Snapshot) (t : Transition) : Snapshot :=
  { state := t.next, tape := (s.tape.write t.write).move t.direction, steps := s.steps + 1 }

/-- The event of performing a transition. -/
def Snapshot.event (s : Snapshot) (t : Transition) : StepEvent :=
  ⟨s.steps + 1, s.tape.head, s.tape.read, t⟩

/-! ### Whole runs -/

/-- The end of a run, and what an observer has made of its steps. -/
structure Ending (α : Type) where
  last : Snapshot
  reason : Reason
  label : String
  seen : α

/-- Goes from state to state, as `f` says, until there is a result. -/
def goOn {σ ε : Type} (s : σ) (f : σ → σ ⊕ ε) : Option ε :=
  let again := goOn (f := f)
  match f s with
  | .inl t => again t
  | .inr e => some e
partial_fixpoint

/-- Decides what happens next and does it: a run goes on or ends. -/
def advance {α : Type} (table : Table) (opts : RunOptions) (observe : α → StepEvent → α)
    (s : Snapshot) (seen : α) : (Snapshot × α) ⊕ Ending α :=
  match verdict table opts s with
  | .stop reason label => .inr ⟨s, reason, label, seen⟩
  | .follow t =>
    let s' := s.perform t
    let seen' := observe seen (s.event t)
    if isHalting s'.state then .inr ⟨s', .haltState, s'.state, seen'⟩ else .inl (s', seen')

/-- Goes on with a run until it ends. -/
def runFrom {α : Type} (table : Table) (opts : RunOptions) (observe : α → StepEvent → α)
    (s : Snapshot) (seen : α) : Option (Ending α) :=
  goOn (s, seen) fun x => advance table opts observe x.1 x.2

/-- The result that an ending comes to. -/
def Ending.result {α : Type} (e : Ending α) (opts : RunOptions) (input : String) : Result :=
  { input, tape := e.last.tape.render opts.sorted, state := e.label, reason := e.reason,
    steps := e.last.steps }

/-- The cause of an ending that was an interruption. -/
def Ending.cause? {α : Type} (e : Ending α) (opts : RunOptions) : Option StopCause :=
  if e.reason = .interrupted then opts.interrupt.map (·.cause) else none

/-- Runs a machine from the start state on a tape, with an observer. -/
def observeRun {α : Type} (table : Table) (opts : RunOptions) (tape : Tape)
    (observe : α → StepEvent → α) (seen : α) : Option (Ending α) :=
  runFrom table opts observe { state := table.initial, tape } seen

/-- The steps of a run in order, as an observer collects them. -/
def traceRun (table : Table) (opts : RunOptions) (tape : Tape) : Option (Ending (List StepEvent)) :=
  (observeRun table opts tape (fun es e => e :: es) []).map
    (fun e => { e with seen := e.seen.reverse })

end TapeMachine
