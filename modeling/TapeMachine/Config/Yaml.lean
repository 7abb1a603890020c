import TapeMachine.Config.Yaml.Meaning
import TapeMachine.Config.Yaml.Node

/-!
# YAML settings files

The members of the mapping that the first document of a text holds. A key may be written only once
in a mapping; what a merge key adds to a mapping gives way to the members that are written there.
The outermost mapping has texts as keys, whatever they look like. An inner mapping has texts as keys
if they all look like texts; otherwise its keys are what they look like.

A document in which nearly all nodes come from aliases is refused, since it could be made to grow
without bound.
-/

namespace TapeMachine.Config.Yaml

open Text

/-! ### Reading nodes -/

/-- What can stand where only a key that is a scalar can be looked up. -/
inductive Collection where
  | list
  | textMapping
  | mixedMapping
deriving DecidableEq

/-- Why a text has no members. -/
inductive Fault where
  | refused
  /-- A key that is a collection was to be looked up among the keys of a merge. -/
  | unhashable (kind : Collection)

/-- What is counted while nodes are read. -/
structure Tally where
  read : Nat := 0
  /-- How many of them were read for an alias. -/
  aliased : Nat := 0
  /-- Whether a fault has been found that does not end the reading. -/
  faulty : Bool := false

/-- Whether too many of the nodes that have been read were read for aliases: more than 99 of 100 in
a small document and more than 10 of 100 in a large one. -/
def Tally.isExcessive (t : Tally) : Bool :=
  let small := 400000
  let large := 4000000
  let allowed :=
    if t.read ≤ small then 99 * (large - small)
    else if large ≤ t.read then 10 * (large - small)
    else 99 * (large - small) - 89 * (t.read - small)
  100 < t.aliased && 1000 < t.read && t.read * allowed < t.aliased * 100 * (large - small)

/-- A reading of nodes. -/
abbrev Reading := StateT Tally (Except Fault)

/-- Ends the reading. -/
def refuse {α : Type} : Reading α := throw .refused

/-- Counts a node. -/
def count (aliased : Bool) : Reading Unit := do
  let t ← get
  let t := { t with read := t.read + 1, aliased := t.aliased + if aliased then 1 else 0 }
  set t
  if t.isExcessive then refuse

/-- Notes a fault and goes on without a value. -/
def leaveOut {α : Type} : Reading (Option α) := do
  modify (fun t => { t with faulty := true })
  return none

/-! ### Keys -/

/-- The tag that decides whether a key looks like a text. -/
def Node.keyTag : Node → String
  | .scalar "" text => tagOf (appearance true text)
  | .scalar tag _ => tag
  | .list tag _ => tag
  | .mapping tag _ => tag
  | .alias _ (some n) => n.keyTag
  | .alias _ none => ""

/-- Whether all keys of a mapping look like texts. -/
def areTextual (members : List (Node × Node)) : Bool :=
  members.all (fun m => m.1.keyTag == "!!str" || m.1.keyTag == "!!merge")

/-- Whether two keys are written alike. -/
def Node.sameKey : Node → Node → Bool
  | .scalar _ a, .scalar _ b => a == b
  | .list _ _, .list _ _ => true
  | .mapping _ _, .mapping _ _ => true
  | .alias a _, .alias b _ => a == b
  | _, _ => false

/-- Whether a key is written twice. -/
def hasTwins : List (Node × Node) → Bool
  | [] => false
  | m :: ms => ms.any (fun other => m.1.sameKey other.1) || hasTwins ms

/-- Whether a key asks for a merge. -/
def Node.isMergeKey : Node → Bool
  | .scalar tag text => tag == "!!merge" && text == "<<"
  | _ => false

/-- Whether a node is a mapping, or stands for one. -/
def Node.isMapping : Node → Bool
  | .mapping _ _ => true
  | .alias _ (some (.mapping _ _)) => true
  | .alias _ none => true
  | _ => false

/-- A key as it is looked up: a text, or another kind of scalar in its spelling. -/
inductive Key where
  | text (s : String)
  | strange (kind : KeyKind) (spelling : String)
deriving DecidableEq

/-- The spelling of the scalar that a key is. -/
def Node.spelling : Node → String
  | .scalar _ text => text
  | .alias _ (some n) => n.spelling
  | _ => ""

/-- What a value is as a key. -/
def keyOf (spelling : String) : Value → Except Collection Key
  | .text s => .ok (.text s)
  | .nothing => .ok (.strange .nothing "")
  | .bool b => .ok (.strange .truth (toString b))
  | .number (.whole n) =>
    .ok (.strange (if (half64 : Int) ≤ n then .unsigned else .integer) (toString n))
  | .number _ => .ok (.strange .fraction spelling)
  | .date => .ok (.strange .date spelling)
  | .list _ => .error .list
  | .mapping _ .textual => .error .textMapping
  | .mapping _ (.mixed _) => .error .mixedMapping

/-! ### Members -/

/-- The members of a mapping that is being read. -/
structure Members where
  named : List (String × Value) := []
  strange : List KeyKind := []

/-- Puts a member into a mapping, in place of one with the same key. -/
def Members.put (ms : Members) (k : Key) (v : Value) : Members :=
  match k with
  | .text s =>
    if ms.named.any (fun m => m.1 == s) then
      { ms with named := ms.named.map (fun m => if m.1 == s then (s, v) else m) }
    else { ms with named := ms.named ++ [(s, v)] }
  | .strange kind _ => { ms with strange := ms.strange ++ [kind] }

/-- A mapping that is being filled: whether its keys are texts, its members, and, while a merge adds
to it, the keys that have been taken. -/
structure Target where
  textual : Bool
  members : Members := {}
  taken : Option (List Key) := none

/-- A scalar as the key of a mapping whose keys are texts. -/
def textKey (tag text : String) : Reading (Option Key) :=
  match meaning? tag text with
  | none => refuse
  | some .nothing => return none
  | some (.text s) => return some (.text s)
  | some _ => return some (.text text)

mutual

/-- The value of a node; nothing if it has a fault. -/
def value : Nat → Bool → Node → Reading (Option Value)
  | 0, _, _ => refuse
  | fuel + 1, aliased, n => do
    count aliased
    match n with
    | .alias _ none => refuse
    | .alias _ (some target) => value fuel true target
    | .scalar tag text =>
      match meaning? tag text with
      | some v => return some v
      | none => refuse
    | .list _ items =>
      let vs ← items.mapM (value fuel aliased)
      return some (.list (vs.filterMap id))
    | .mapping _ members =>
      let textual := areTextual members
      match ← fill fuel aliased members { textual } with
      | none => return none
      | some t =>
        let keys := if textual then .textual else .mixed t.members.strange
        return some (.mapping t.members.named keys)

/-- The key of a member as it is in a mapping whose keys are texts. -/
def keyText : Nat → Bool → Node → Reading (Option Key)
  | 0, _, _ => refuse
  | fuel + 1, aliased, n => do
    count aliased
    match n with
    | .alias _ none => refuse
    | .alias _ (some target) => keyText fuel true target
    | .scalar tag text => textKey tag text
    | .list _ _ => leaveOut
    | .mapping _ _ => leaveOut

/-- The key of a member as it is by its looks. While a merge goes on, it has to be a scalar. -/
def keyValue : Nat → Bool → Bool → Node → Reading (Option Key)
  | 0, _, _, _ => refuse
  | fuel + 1, aliased, merging, n => do
    match ← value fuel aliased n with
    | none => return none
    | some v =>
      match keyOf n.spelling v with
      | .ok k => return some k
      | .error kind => if merging then throw (.unhashable kind) else refuse

/-- Adds the members of a mapping to a target; nothing if a key is written twice. -/
def fill : Nat → Bool → List (Node × Node) → Target → Reading (Option Target)
  | 0, _, _, _ => refuse
  | fuel + 1, aliased, members, t => do
    if hasTwins members then leaveOut
    else
      let t ← members.foldlM (fun t m => member fuel aliased m.1 m.2 t) t
      match members.find? (fun m => m.1.isMergeKey) with
      | none => return some t
      | some (_, source) =>
        match t.taken with
        | some _ => return some (← merge fuel aliased source t)
        | none =>
          let keys ← members.mapM (fun m => keyValue fuel aliased true m.1)
          let t ← merge fuel aliased source { t with taken := some (keys.filterMap id) }
          return some { t with taken := none }

/-- Adds a member to a target, unless its key is taken. -/
def member : Nat → Bool → Node → Node → Target → Reading Target
  | 0, _, _, _, _ => refuse
  | fuel + 1, aliased, key, source, t => do
    if key.isMergeKey then return t
    let k ← if t.textual then keyText fuel aliased key
      else keyValue fuel aliased t.taken.isSome key
    match k with
    | none => return t
    | some k =>
      if (t.taken.getD []).contains k then return t
      let t := { t with taken := t.taken.map (k :: ·) }
      match ← value fuel aliased source with
      | none => return t
      | some v => return { t with members := t.members.put k v }

/-- Adds to a target what a merge key holds: a mapping, or a list of mappings. -/
def merge : Nat → Bool → Node → Target → Reading Target
  | 0, _, _, _ => refuse
  | fuel + 1, aliased, source, t => do
    match source with
    | .list _ items => items.foldlM (fun t n => mergeMapping fuel aliased n t) t
    | n => mergeMapping fuel aliased n t

/-- Adds to a target what a mapping holds. -/
def mergeMapping : Nat → Bool → Node → Target → Reading Target
  | 0, _, _, _ => refuse
  | fuel + 1, aliased, n, t => do
    if !n.isMapping then refuse
    count aliased
    match n with
    | .alias _ (some target) => mergeMapping fuel true target t
    | .mapping _ members => return (← fill fuel aliased members t).getD t
    | _ => refuse

end

/-! ### Texts -/

/-- Whether a character may stand in a text. -/
def isAllowed (c : Char) : Bool :=
  let n := c.toNat
  n == 9 || n == 10 || n == 13 || (0x20 ≤ n && n < 0x7F) || n == 0x85 ||
    (0xA0 ≤ n && n != 0xFFFE && n != 0xFFFF)

/-- The members of a document. One that holds nothing has none. -/
def rootMembers (fuel : Nat) (n : Node) : Reading (List (String × Value)) := do
  count false
  match n with
  | .mapping _ members =>
    count false
    match ← fill fuel false members { textual := true } with
    | some t => return t.members.named
    | none => return []
  | .scalar tag text =>
    match meaning? tag text with
    | some .nothing => return []
    | _ => refuse
  | _ => refuse

/-- The members that a text holds. -/
def parse (text : String) : Except Fault (List (String × Value)) := do
  let cs := text.toList
  if !cs.all isAllowed then throw .refused
  match document? cs with
  | none => throw .refused
  | some none => return []
  | some (some n) =>
    let (members, tally) ← (rootMembers (8 * cs.length + 64) n).run {}
    if tally.faulty then throw .refused
    return members

end TapeMachine.Config.Yaml
