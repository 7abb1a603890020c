import TapeMachine.Run

/-!
# Callers

Whoever asks for something may have gone away already, or may give up after a while. Time is told by
the work of a machine: a while is the number of steps a machine performs in it.
-/

namespace TapeMachine

/-- How long a caller waits for an answer. -/
inductive Caller where
  /-- Waits as long as it takes. -/
  | patient
  /-- Has gone away already. -/
  | gone
  /-- Gives up after the time of so many steps. -/
  | hurried (steps : Nat)
deriving DecidableEq

namespace Caller

/-- What keeps a caller from being served at all. -/
def absent? : Caller → Option StopCause
  | .gone => some .cancelled
  | _ => none

/-- What ends a wait that would otherwise go on; a patient caller waits for ever. -/
def givesUp? : Caller → Option StopCause
  | .patient => none
  | .gone => some .cancelled
  | .hurried _ => some .deadline

/-- The number of steps a machine performs in a millisecond. -/
def stepsPerMillisecond : Nat := 5000

/-- A caller who gives up after so many milliseconds. -/
def within (milliseconds : Nat) : Caller :=
  .hurried (milliseconds * stepsPerMillisecond)

/-- The interruption that a caller means for a run. -/
def interrupt? : Caller → Option Interrupt
  | .patient => none
  | .gone => some ⟨0, .cancelled⟩
  | .hurried steps => some ⟨steps, .deadline⟩

/-- The number of steps a machine performs in so many nanoseconds. -/
def stepsIn (nanoseconds : Nat) : Nat :=
  nanoseconds * stepsPerMillisecond / 1000000

/-- A caller on whose behalf nothing may take longer than so many nanoseconds; zero means no
bound. -/
def limited (nanoseconds : Nat) (c : Caller) : Caller :=
  if nanoseconds = 0 then c
  else
    match c with
    | .patient => .hurried (stepsIn nanoseconds)
    | .gone => .gone
    | .hurried steps => .hurried (min steps (stepsIn nanoseconds))

end Caller

end TapeMachine
