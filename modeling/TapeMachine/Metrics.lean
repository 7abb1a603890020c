import TapeMachine.Hooks

/-!
# Metrics

Counts kept over all runs of an engine: how many transitions were performed, how many runs ended
for which reason, and how long the runs were. The counts are kept by a registry (`Registry`), which
has counters that go up by one and a histogram, and shows a number for each series. The lengths of
runs are counted in ranges whose upper bounds grow tenfold, each range including the ones below it.

`Metrics` is a registry that keeps all it was told. It shows its numbers one line a number.
-/

namespace TapeMachine

/-- What is counted one by one: transitions, and the runs that end for a reason. -/
inductive Counter where
  | steps
  | halts (reason : Reason)
deriving DecidableEq

/-- A number that is shown: what it counts. -/
inductive Series where
  | halts (reason : Reason)
  /-- The runs with at most so many transitions, or all of them. -/
  | bucket (bound : Option Nat)
  | runSteps
  | runs
  | steps
deriving DecidableEq

/-- The series of a counter. -/
def Counter.series : Counter → Series
  | .steps => .steps
  | .halts reason => .halts reason

/-- A library that counts: it adds one to a counter, takes an observation of the length of a run
into a histogram, and shows what has been counted. -/
class Registry (μ : Type) where
  /-- Nothing has been counted. -/
  fresh : μ
  inc (m : μ) (c : Counter) : μ
  observe (m : μ) (steps : Nat) : μ
  /-- The number that is shown for a series, if there is one. -/
  sample (m : μ) (s : Series) : Option Nat

namespace Metrics

variable {μ : Type} [Registry μ]

/-- Counts a step. -/
def onStep (m : μ) (_ : StepEvent) : μ :=
  Registry.inc m .steps

/-- Counts a finished run. -/
def onHalt (m : μ) (r : Result) : μ :=
  Registry.observe (Registry.inc m (.halts r.reason)) r.steps

/-- The hooks that count. -/
def hooks : Hooks μ where
  onStep := some onStep
  onHalt := some onHalt

/-- The bounds of the ranges. -/
def bounds : List Nat :=
  (List.range 8).map (Nat.pow 10)

end Metrics

/-- Runs a table on every input and counts what happens. -/
def Engine.measure {μ : Type} [Registry μ] (e : Engine) (interrupt : Option Interrupt)
    (table : Table) (m : μ) : List String → Option (List Result × Option StopCause × μ)
  | [] => some ([], none, m)
  | input :: inputs => do
    let o ← e.runHooked interrupt table input Metrics.hooks m
    let (results, cause, m') ← e.measure interrupt table o.seen inputs
    some (o.result :: results, o.cause.or cause, m')

/-! ### A registry -/

/-- What has been counted. -/
structure Metrics where
  /-- The number of transitions performed. -/
  steps : Nat := 0
  /-- Why runs have ended. -/
  ends : List Reason := []
  /-- How many transitions runs have performed. -/
  lengths : List Nat := []

namespace Metrics

/-- The number of runs that ended for a reason. -/
def halts (m : Metrics) (reason : Reason) : Nat :=
  m.ends.countP (· = reason)

/-- The number of runs with at most so many transitions. -/
def within (m : Metrics) (bound : Nat) : Nat :=
  m.lengths.countP (· ≤ bound)

/-- The number of transitions over all runs. -/
def total (m : Metrics) : Nat :=
  m.lengths.foldl (· + ·) 0

/-- Adds one to a counter. -/
def inc (m : Metrics) : Counter → Metrics
  | .steps => { m with steps := m.steps + 1 }
  | .halts reason => { m with ends := m.ends ++ [reason] }

/-- Takes an observation of the length of a run. -/
def observe (m : Metrics) (steps : Nat) : Metrics :=
  { m with lengths := m.lengths ++ [steps] }

/-- The reasons in the order in which they are shown. -/
def shownReasons : List Reason :=
  [.haltState, .interrupted, .noState, .noTransition, .stepLimit]

/-- The numbers that are shown. A reason that never occurred has none. -/
def samples (m : Metrics) : List (Series × Nat) :=
  (shownReasons.filter (fun r => m.halts r != 0)).map (fun r => (Series.halts r, m.halts r)) ++
  bounds.map (fun b => (Series.bucket (some b), m.within b)) ++
  [(Series.bucket none, m.lengths.length), (Series.runSteps, m.total),
    (Series.runs, m.lengths.length), (Series.steps, m.steps)]

instance : Registry Metrics where
  fresh := {}
  inc := inc
  observe := observe
  sample m s := m.samples.lookup s

/-! ### Lines -/

/-- The decimal digits of a number, the zeros at its end left out. -/
def significantDigits (n : Nat) : List Char :=
  ((Nat.toDigits 10 n).reverse.dropWhile (· == '0')).reverse

/-- A count as text: below a million all digits, and from there on one digit, the other digits
after a point, and a power of ten of at least two digits. -/
def number (n : Nat) : String :=
  if n < 1000000 then toString n
  else
    let exponent := (Nat.toDigits 10 n).length - 1
    let power := (if exponent < 10 then "0" else "") ++ toString exponent
    match significantDigits n with
    | [] => "0"
    | [d] => String.ofList [d] ++ "e+" ++ power
    | d :: ds => String.ofList (d :: '.' :: ds) ++ "e+" ++ power

/-- A name with a label. -/
def labelled (name label value : String) : String :=
  name ++ "\x7b" ++ label ++ "=\"" ++ value ++ "\"\x7d"

/-- The lines of all counts, without newlines. A reason that never occurred has no line. -/
def lines (m : Metrics) : List String :=
  (shownReasons.filter (fun r => m.halts r != 0)).map (fun r =>
    labelled "turing_halts_total" "reason" r.name ++ " " ++ number (m.halts r)) ++
  bounds.map (fun b =>
    labelled "turing_run_steps_bucket" "le" (number b) ++ " " ++ number (m.within b)) ++
  [labelled "turing_run_steps_bucket" "le" "+Inf" ++ " " ++ number m.lengths.length,
    "turing_run_steps_sum " ++ number m.total,
    "turing_run_steps_count " ++ number m.lengths.length,
    "turing_steps_total " ++ number m.steps]

end Metrics

end TapeMachine
