import TapeMachine.Config.Yaml.Scanner

/-!
# Nodes of a YAML text

A document is a tree of scalars, lists and mappings. An alias stands for the node that an anchor in
front of it has named, and of two anchors with one name the nearer one counts. Only the first
document of a text is read, and whatever follows it is left alone.
-/

namespace TapeMachine.Config.Yaml

/-- A node. A tag says what a node is; a scalar without one is what its text looks like. -/
inductive Node where
  | scalar (tag text : String)
  | list (tag : String) (items : List Node)
  | mapping (tag : String) (members : List (Node × Node))
  /-- A node that has been named before; nothing if the alias stands inside of it. -/
  | alias (name : String) (target : Option Node)

/-- A scalar that is not there. -/
def Node.empty : Node := .scalar "" ""

/-! ### Tags -/

/-- What all tags of the standard start with. -/
def standardTags : String := "tag:yaml.org,2002:"

/-- A tag in its short form. -/
def shortTag (tag : String) : String :=
  if standardTags.toList.isPrefixOf tag.toList then
    "!!" ++ String.ofList (tag.toList.drop standardTags.length)
  else tag

/-- Whether a tag says nothing. -/
def isVoidTag (tag : String) : Bool := tag == "" || tag == "!"

/-- The tag of a node for which a tag is written, and that has another one without it. -/
def tagOr (tag other : String) : String := if isVoidTag tag then other else shortTag tag

/-- The tag of a scalar without a written tag. -/
def scalarTag (text : String) (plain : Bool) : String :=
  if !plain then "!!str" else if text == "<<" then "!!merge" else ""

/-! ### Reading tokens -/

/-- A node that has been named. It has no value as long as it is being read. -/
structure Anchor where
  name : String
  number : Nat
  node : Option Node := none

/-- What is read from, and what has been said so far. -/
structure Source where
  scanner : Scanner
  /-- What the handles of tags stand for. -/
  handles : List (String × String) := []
  /-- The nodes that have been named, the last one first. -/
  anchors : List Anchor := []

/-- A reader that can fail. -/
abbrev Reader := StateT Source Option

/-- The next token. -/
def peek : Reader Token := fun s =>
  s.scanner.next?.map (fun r => (r.1, { s with scanner := r.2 }))

/-- Passes over the next token, which has been looked at. -/
def advance : Reader Unit := modify (fun s => { s with scanner := s.scanner.take })

/-- There is no node here. -/
def fail {α : Type} : Reader α := fun _ => none

/-! ### Properties -/

/-- What can be said of a node in front of it. -/
structure Properties where
  anchor : Option String := none
  tag : String := ""

/-- The tag that a handle and a suffix stand for. -/
def expand (handle suffix : String) : Reader String := do
  if handle == "" then return suffix
  match (← get).handles.lookup handle with
  | some front => if front ++ suffix == "" then fail else return front ++ suffix
  | none => fail

/-- The properties in front of a node: an anchor and a tag, in any order. -/
def properties : Reader Properties := do
  match ← peek with
  | .anchor name =>
    advance
    match ← peek with
    | .tag handle suffix =>
      advance
      return { anchor := some name, tag := ← expand handle suffix }
    | _ => return { anchor := some name }
  | .tag handle suffix =>
    advance
    match ← peek with
    | .anchor name =>
      advance
      return { anchor := some name, tag := ← expand handle suffix }
    | _ => return { tag := ← expand handle suffix }
  | _ => return {}

/-- Names the node that is about to be read. -/
def announce (name : String) : Reader Nat := do
  let s ← get
  let number := s.anchors.length
  set { s with anchors := ⟨name, number, none⟩ :: s.anchors }
  return number

/-- Notes the value of a node that has been named. -/
def complete (number : Nat) (n : Node) : Reader Unit :=
  let note (a : Anchor) := if a.number = number then { a with node := some n } else a
  modify (fun s => { s with anchors := s.anchors.map note })

/-- Reads a node that may have a name. -/
def named (name : Option String) (read : Reader Node) : Reader Node := do
  match name with
  | none => read
  | some name =>
    let number ← announce name
    let n ← read
    complete number n
    return n

/-- The node that an alias stands for. -/
def lookUp (name : String) : Reader Node := do
  match (← get).anchors.find? (fun a => a.name == name) with
  | some a => return .alias name a.node
  | none => fail

/-! ### Values -/

/-- Reads a node, unless one of some tokens follows, which means that there is none. -/
def unlessAt (ends : List Token) (read : Reader Node) : Reader Node := do
  if ends.contains (← peek) then return .empty else read

/-- Passes over a token and reads what follows it, if it is there. -/
def behind (t : Token) (read : Reader Node) : Reader Node := do
  if (← peek) == t then
    advance
    read
  else return .empty

mutual

/-- A node. Blocks can stand only outside of flow values, and a list whose items are not indented
only as a member of a block. -/
def node : Nat → Bool → Bool → Reader Node
  | 0, _, _ => fail
  | fuel + 1, block, bare => do
    if let .alias name ← peek then
      advance
      lookUp name
    else
      let p ← properties
      named p.anchor (content fuel block bare p)

/-- A node behind its properties. -/
def content : Nat → Bool → Bool → Properties → Reader Node
  | 0, _, _, _ => fail
  | fuel + 1, block, bare, p => do
    match ← peek with
    | .scalar text plain =>
      advance
      return .scalar (tagOr p.tag (scalarTag text plain)) text
    | .flowList =>
      advance
      return .list (tagOr p.tag "!!seq") (← flowItems fuel true)
    | .flowMapping =>
      advance
      return .mapping (tagOr p.tag "!!map") (← flowMembers fuel true)
    | .item =>
      if bare then return .list (tagOr p.tag "!!seq") (← bareItems fuel)
      else nothing p
    | .blockList =>
      if !block then nothing p
      else
        advance
        return .list (tagOr p.tag "!!seq") (← blockItems fuel)
    | .blockMapping =>
      if !block then nothing p
      else
        advance
        return .mapping (tagOr p.tag "!!map") (← blockMembers fuel)
    | _ => nothing p
where
  /-- A scalar that is not there, although something is said of it. -/
  nothing (p : Properties) : Reader Node :=
    if p.anchor.isNone && p.tag == "" then fail else return .scalar (tagOr p.tag "") ""

/-- The items of a block. -/
def blockItems : Nat → Reader (List Node)
  | 0 => fail
  | fuel + 1 => do
    match ← peek with
    | .item =>
      advance
      let n ← unlessAt [.item, .blockEnd] (node fuel true false)
      return n :: (← blockItems fuel)
    | .blockEnd =>
      advance
      return []
    | _ => fail

/-- The items of a list that stands no further right than the key it belongs to. -/
def bareItems : Nat → Reader (List Node)
  | 0 => fail
  | fuel + 1 => do
    match ← peek with
    | .item =>
      advance
      let n ← unlessAt [.item, .key, .value, .blockEnd] (node fuel true false)
      return n :: (← bareItems fuel)
    | _ => return []

/-- The members of a block. What stands behind the mark of a key or of a value may be missing. -/
def blockMembers : Nat → Reader (List (Node × Node))
  | 0 => fail
  | fuel + 1 => do
    let part := unlessAt [.key, .value, .blockEnd] (node fuel true true)
    match ← peek with
    | .key =>
      advance
      let k ← part
      let v ← behind .value part
      return (k, v) :: (← blockMembers fuel)
    | .blockEnd =>
      advance
      return []
    | _ => fail

/-- The items of a flow list. A pair of a key and a value is a mapping of its own. -/
def flowItems : Nat → Bool → Reader (List Node)
  | 0, _ => fail
  | fuel + 1, first => do
    if (← peek) == .flowListEnd then
      advance
      return []
    if !first then
      if (← peek) != .comma then fail
      advance
    match ← peek with
    | .key =>
      advance
      let k ← if [Token.value, .comma, .flowListEnd].contains (← peek) then
          advance
          pure Node.empty
        else node fuel false false
      let v ← behind .value (unlessAt [.comma, .flowListEnd] (node fuel false false))
      return .mapping "!!map" [(k, v)] :: (← flowItems fuel false)
    | .flowListEnd =>
      advance
      return []
    | _ =>
      let n ← node fuel false false
      return n :: (← flowItems fuel false)

/-- The members of a flow mapping. -/
def flowMembers : Nat → Bool → Reader (List (Node × Node))
  | 0, _ => fail
  | fuel + 1, first => do
    if (← peek) == .flowMappingEnd then
      advance
      return []
    if !first then
      if (← peek) != .comma then fail
      advance
    match ← peek with
    | .key =>
      advance
      let k ← unlessAt [.value, .comma, .flowMappingEnd] (node fuel false false)
      let v ← behind .value (unlessAt [.comma, .flowMappingEnd] (node fuel false false))
      return (k, v) :: (← flowMembers fuel false)
    | .flowMappingEnd =>
      advance
      return []
    | _ =>
      let k ← node fuel false false
      return (k, .empty) :: (← flowMembers fuel false)

end

/-! ### Documents -/

/-- The handles that can be used without being declared. -/
def defaultHandles : List (String × String) := [("!", "!"), ("!!", standardTags)]

/-- The directives of a document, each of which may be given only once. -/
def directives : Nat → Bool → Reader Unit
  | 0, _ => fail
  | fuel + 1, hasVersion => do
    match ← peek with
    | .version major minor =>
      if hasVersion || major != 1 || minor != 1 then fail
      advance
      directives fuel true
    | .handle name standsFor =>
      let s ← get
      if s.handles.any (fun h => h.1 == name) then fail
      set { s with handles := s.handles ++ [(name, standsFor)] }
      advance
      directives fuel hasVersion
    | _ => modify (fun s => { s with handles := s.handles ++ defaultHandles })

/-- Whether a token cannot stand in a document. -/
def Token.isOutside : Token → Bool
  | .version _ _ | .handle _ _ | .documentStart | .documentEnd | .streamEnd => true
  | _ => false

/-- The first document; nothing if there is none. -/
def document (fuel : Nat) : Reader (Option Node) := do
  let first ← peek
  if first == .streamEnd then return none
  directives fuel false
  let n ←
    if first.isOutside && first != .documentEnd then
      if (← peek) != .documentStart then fail
      advance
      if (← peek).isOutside then pure Node.empty else node fuel true false
    else node fuel true false
  let _ ← peek
  return some n

/-- The byte order mark. -/
def orderMark : Char := Char.ofNat 0xFEFF

/-- The first document of a text, if that is one; nothing if there is none. A text may start with a
byte order mark. Behind a second one, the first character of each line is passed over. -/
def document? (text : List Char) : Option (Option Node) :=
  let cs := if text.head? == some orderMark then text.drop 1 else text
  let scanner : Scanner := { cursor := { rest := cs }, marked := cs.head? == some orderMark }
  ((document (8 * cs.length + 64)).run { scanner }).map (·.1)

end TapeMachine.Config.Yaml
