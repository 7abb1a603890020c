import TapeMachine.Table

/-!
# Checking a table

Walks a table from its start state and reports what looks like a mistake: a start state without
rules, jumps to states that have no rules and are not halting, and states the walk never reaches.
-/

namespace TapeMachine.Lint

/-- Something that looks like a mistake. -/
inductive Finding where
  | noStart
  | deadStart (state : String)
  | missing (target : String) (from_ : Transition)
  | unreachable (state : String)
deriving DecidableEq

/-- The wording of a finding. -/
def Finding.message : Finding → String
  | .noStart => "table has no initial state"
  | .deadStart state => "Initial state '" ++ state ++ "' has no transitions"
  | .missing target t =>
    "Missing state '" ++ target ++ "' (goto from " ++ t.state ++ "(" ++ t.read ++ "))"
  | .unreachable state => "Unreachable state '" ++ state ++ "'"

/-- What a walk has seen: the states it visited and the targets it missed, both in reverse. -/
structure Walk where
  visited : List String := []
  missed : List (String × Transition) := []
deriving DecidableEq

/-- Notes the targets of rules that have none of their own; each target is noted once. -/
def Walk.note (table : Table) (w : Walk) (rules : List Transition) : Walk :=
  rules.foldl (fun w t =>
    if isHalting t.next || table.hasState t.next || w.missed.any (fun m => m.1 == t.next) then w
    else { w with missed := (t.next, t) :: w.missed }) w

/-- The states that rules lead to, that have rules of their own and that were not visited yet. -/
def successors (table : Table) (visited : List String) (rules : List Transition) : List String :=
  (rules.map (·.next)).filter (fun s =>
    !isHalting s && table.hasState s && !visited.contains s)

/-- Visits the states of a queue, first come first served, for at most so many rounds. -/
def walk (table : Table) : Nat → List String → Walk → Walk
  | 0, _, w => w
  | _, [], w => w
  | rounds + 1, s :: queue, w =>
    if w.visited.contains s then walk table rounds queue w
    else
      let rules := table.rules s
      let w' := { w with visited := s :: w.visited }
      walk table rounds (queue ++ successors table w'.visited rules) (w'.note table rules)

/-- Everything there is to report about a table. Each rule puts at most one state into the queue,
so a walk takes no more rounds than there are rules, and one for the start state. -/
def findings (table : Table) : List Finding :=
  if table.initial == "" then [.noStart]
  else
    let w := walk table (table.size + 1) [table.initial] {}
    (if !table.hasState table.initial && !isHalting table.initial then
      [.deadStart table.initial] else []) ++
    w.missed.reverse.map (fun m => .missing m.1 m.2) ++
    (table.states.filter (fun s => !w.visited.contains s)).map .unreachable

/-- The findings as one text, or nothing if there are none. -/
def report (table : Table) : Option String :=
  match findings table with
  | [] => none
  | fs =>
    some ("found " ++ toString fs.length ++ " errors:\n- " ++
      "\n- ".intercalate (fs.map Finding.message))

end TapeMachine.Lint
