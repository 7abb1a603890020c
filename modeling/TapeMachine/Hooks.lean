import TapeMachine.Engine

/-!
# Hooks

Whoever wants to follow runs registers hooks: something to do after every step, and something to do
at the end of a run. Either may be missing. Hooks that are registered one after the other are merged
into one, and of merged hooks those that were registered first are called first.
-/

namespace TapeMachine

/-- What hooks are told: a step that was performed, or the result of a run that has ended. -/
inductive RunEvent where
  | step (e : StepEvent)
  | halt (r : Result)
deriving DecidableEq

/-- What is done after every step and at the end of a run, to something that the hooks keep. -/
structure Hooks (σ : Type) where
  onStep : Option (σ → StepEvent → σ) := none
  onHalt : Option (σ → Result → σ) := none

namespace Hooks

variable {σ ε : Type}

/-- One thing and then the other; what is missing is left out. -/
def chain : Option (σ → ε → σ) → Option (σ → ε → σ) → Option (σ → ε → σ)
  | none, b => b
  | some a, none => some a
  | some a, some b => some (fun s e => b (a s e) e)

/-- Hooks that call `h` first and then `other`. -/
def merge (h other : Hooks σ) : Hooks σ where
  onStep := chain h.onStep other.onStep
  onHalt := chain h.onHalt other.onHalt

/-- Hooks that call all hooks of a list in their order. -/
def mergeAll (hs : List (Hooks σ)) : Hooks σ :=
  hs.foldl merge {}

/-- Does what is to be done, if anything is. -/
def call (f : Option (σ → ε → σ)) (s : σ) (e : ε) : σ :=
  match f with
  | none => s
  | some f => f s e

/-- Tells the hooks what has happened. -/
def receive (h : Hooks σ) (s : σ) : RunEvent → σ
  | .step e => call h.onStep s e
  | .halt r => call h.onHalt s r

end Hooks

/-- Runs a table on one input and tells the hooks of every step and of the end. -/
def Engine.runHooked {σ : Type} (e : Engine) (interrupt : Option Interrupt) (table : Table)
    (input : String) (hooks : Hooks σ) (s : σ) : Option (Engine.Outcome σ) :=
  (e.observe interrupt table input (fun s ev => hooks.receive s (.step ev)) s).map (fun o =>
    { o with seen := hooks.receive o.seen (.halt o.result) })

end TapeMachine
