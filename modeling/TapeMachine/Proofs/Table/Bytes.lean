import TapeMachine.Proofs.Table.Representation
import TapeMachine.Proofs.Text.Bytes

/-!
# Tables as they are kept

A table is kept in two parts: a list of its states, in the order in which they were first seen, and
a map from states to their transitions. The fields of a transition are any bytes: a table asks only
how the direction is spelled and of how many runes the symbols are, and a byte that belongs to no
character is a rune by itself.

`ByteTable` is a table that is kept in this way. A table of texts is one of them (`ofTable`), and it
does not matter whether a transition is added before or after the table is seen as one of them
(`add_ofTable`, `addAll_ofTable`): adding changes the map at one state only, and the list unless the
map had the state. The transitions, state by state, and the JSON text are the same too
(`transitions_ofTable`, `render_toJson_ofTable`).
-/

namespace TapeMachine

open Text

/-! ## Transitions of bytes -/

/-- A transition whose fields are any bytes. -/
structure ByteTransition where
  state : Bytes
  read : Bytes
  write : Bytes
  move : Bytes
  next : Bytes
deriving DecidableEq

namespace ByteTransition

/-- A transition whose fields are texts. -/
def ofTransition (r : Transition) : ByteTransition := ⟨r.state, r.read, r.write, r.move, r.next⟩

/-- Whether the direction is spelled as a direction, and both symbols are single runes. -/
def isValid (r : ByteTransition) : Bool :=
  ((text? r.move).bind Direction.parse?).isSome &&
    (runes r.read).length == 1 && (runes r.write).length == 1

/-- A transition as a JSON object. -/
def toJson (r : ByteTransition) : Json :=
  .object [("current_state", .bytes r.state), ("current_cell", .bytes r.read),
    ("new_cell", .bytes r.write), ("direction", .bytes r.move), ("new_state", .bytes r.next)]

/-- The state of a transition, as bytes. -/
@[simp] lemma state_ofTransition (r : Transition) : (ofTransition r).state = bytes r.state := rfl

/-- The symbol a transition reads, as bytes. -/
@[simp] lemma read_ofTransition (r : Transition) : (ofTransition r).read = bytes r.read := rfl

/-- A transition of texts is valid as one of bytes when it is valid. -/
lemma isValid_ofTransition (r : Transition) : (ofTransition r).isValid = r.defect?.isNone := by
  have hlength : ∀ s : String, (runes (bytes s)).length = s.length := by
    intro s
    rw [runes_bytes, List.length_map, String.length_toList]
  unfold isValid ofTransition Transition.defect?
  simp only [text?_bytes, Option.bind_some, hlength]
  cases Direction.parse? r.move with
  | none => rfl
  | some d =>
    by_cases hread : r.read.length = 1
    · by_cases hwrite : r.write.length = 1 <;> simp [hread, hwrite]
    · simp [hread]

end ByteTransition

/-! ## Tables of bytes -/

/-- A table with a list of states, and a map from states to transitions. -/
@[ext]
structure ByteTable where
  initial : Bytes := []
  states : List Bytes := []
  byState : Bytes → Option (List ByteTransition) := fun _ => none
  frozen : Bool := false

namespace ByteTable

/-- The transitions of a state. -/
def rules (t : ByteTable) (state : Bytes) : List ByteTransition :=
  (t.byState state).getD []

/-- The transitions, state by state. -/
def transitions (t : ByteTable) : List ByteTransition :=
  t.states.flatMap t.rules

/-- Puts a transition at the end of what the map has for its state. A state that the map does not
have is put at the end of the list. -/
def insert (t : ByteTable) (r : ByteTransition) : ByteTable where
  initial := if t.states.isEmpty && t.initial.isEmpty then r.state else t.initial
  states := if (t.byState r.state).isSome then t.states else t.states ++ [r.state]
  byState := Function.update t.byState r.state (some (t.rules r.state ++ [r]))
  frozen := t.frozen

/-- Adds a transition, unless the table refuses it. -/
def add (t : ByteTable) (r : ByteTransition) : Option ByteTable :=
  if t.frozen || !r.isValid || (t.rules r.state).any (fun q => q.read == r.read) then none
  else some (t.insert r)

/-- Adds transitions in order, and stops at the first that is refused. -/
def addAll (t : ByteTable) : List ByteTransition → ByteTable × Bool
  | [] => (t, true)
  | r :: rs =>
    match t.add r with
    | some t' => t'.addAll rs
    | none => (t, false)

/-- A copy that can be changed again. -/
def thaw (t : ByteTable) : ByteTable :=
  { t with frozen := false }

/-- A table as a JSON object. -/
def toJson (t : ByteTable) : Json :=
  .object [("initial_state", .bytes t.initial),
    ("transitions", .array (t.transitions.map ByteTransition.toJson))]

/-! ## Tables of texts -/

/-- A group of transitions with its state. -/
def ofGroup (g : String × List Transition) : Bytes × List ByteTransition :=
  (bytes g.1, g.2.map .ofTransition)

/-- A table of texts. -/
def ofTable (t : Table) : ByteTable where
  initial := t.initial
  states := t.states.map bytes
  byState := fun state => (t.groups.map ofGroup).lookup state
  frozen := t.frozen

/-- What the map has for a state. -/
lemma lookup_map_ofGroup (gs : List (String × List Transition)) (state : String) :
    (gs.map ofGroup).lookup (bytes state) =
      (gs.lookup state).map (·.map ByteTransition.ofTransition) := by
  induction gs with
  | nil => rfl
  | cons g gs ih =>
    have hkey : (bytes state == (ofGroup g).1) = (state == g.1) := by
      rw [Bool.eq_iff_iff, beq_iff_eq, beq_iff_eq, ofGroup, bytes_injective.eq_iff]
    rw [List.map_cons, List.lookup_cons, List.lookup_cons, hkey, ih]
    cases state == g.1 <;> rfl

/-- The transitions of a state are those that the table of texts has. -/
lemma rules_ofTable (t : Table) (state : String) :
    (ofTable t).rules state = (t.rules state).map .ofTransition := by
  rw [rules, ofTable, Table.rules]
  simp only [lookup_map_ofGroup]
  cases t.groups.lookup state <;> rfl

/-- Inserting a rule changes what the map has for the state of the rule, and nothing else. -/
lemma lookup_insertRule (r : Transition) (gs : List (String × List Transition)) (state : Bytes) :
    ((Table.insertRule r gs).map ofGroup).lookup state =
      if state = bytes r.state then
        some (((gs.map ofGroup).lookup state).getD [] ++ [.ofTransition r])
      else (gs.map ofGroup).lookup state := by
  induction gs with
  | nil =>
    rw [Table.insertRule, List.map_singleton, List.lookup_cons, ofGroup]
    by_cases hstate : state = bytes r.state
    · simp [hstate]
    · simp [hstate, beq_eq_false_iff_ne.mpr hstate]
  | cons g gs ih =>
    obtain ⟨s, rs⟩ := g
    rw [Table.insertRule, List.map_cons, List.lookup_cons]
    cases hs : s == r.state with
    | true =>
      rw [if_pos rfl, List.map_cons, List.lookup_cons, ← eq_of_beq hs]
      cases hstate : state == bytes s with
      | true => simp [ofGroup, eq_of_beq hstate]
      | false => simp [ofGroup, hstate, beq_eq_false_iff_ne.mp hstate]
    | false =>
      rw [if_neg Bool.false_ne_true, List.map_cons, List.lookup_cons, ih]
      cases hstate : state == bytes s with
      | true =>
        have hne : bytes s ≠ bytes r.state :=
          fun heq => beq_eq_false_iff_ne.mp hs (bytes_injective heq)
        simp [ofGroup, eq_of_beq hstate, hne]
      | false => simp [ofGroup, hstate]

/-- The list grows unless the map has the state of the rule. -/
lemma map_fst_insertRule_bytes (r : Transition) (gs : List (String × List Transition)) :
    ((Table.insertRule r gs).map (·.1)).map bytes =
      if ((gs.map ofGroup).lookup (bytes r.state)).isSome then (gs.map (·.1)).map bytes
      else (gs.map (·.1)).map bytes ++ [bytes r.state] := by
  rw [Table.map_fst_insertRule, lookup_map_ofGroup, Option.isSome_map]
  have hmem := Table.mem_states_iff_hasState (t := { groups := gs }) (s := r.state)
  rw [Table.hasState, Table.states] at hmem
  by_cases h : r.state ∈ gs.map (·.1)
  · rw [if_pos h, if_pos (hmem.mp h)]
  · rw [if_neg h, if_neg (mt hmem.mpr h), List.map_append, List.map_singleton]

/-- Only the empty text has no bytes. -/
lemma isEmpty_bytes (s : String) : (bytes s).isEmpty = (s == "") := by
  rw [Bool.eq_iff_iff, List.isEmpty_iff, beq_iff_eq]
  exact bytes_injective.eq_iff' rfl

/-- A table of texts into which a transition is put. -/
lemma insert_ofTable (t : Table) (r : Transition) :
    (ofTable t).insert (.ofTransition r) = ofTable { t with
      initial := if t.groups.isEmpty && t.initial == "" then r.state else t.initial
      groups := Table.insertRule r t.groups } := by
  have hinitial : ((t.states.map bytes).isEmpty && (bytes t.initial).isEmpty) =
      (t.groups.isEmpty && t.initial == "") := by
    rw [isEmpty_bytes, List.isEmpty_map, Table.states, List.isEmpty_map]
  refine ByteTable.ext ?_ (map_fst_insertRule_bytes r t.groups).symm (funext fun state => ?_) rfl
  · simp only [insert, ofTable, hinitial, apply_ite bytes]
    rfl
  · simp only [insert, ofTable, lookup_insertRule, Function.update_apply,
      ByteTransition.state_ofTransition]
    split
    · rename_i hstate
      rw [hstate]
      rfl
    · rfl

/-- It does not matter whether a transition is added before or after a table of texts is seen as one
of bytes. -/
theorem add_ofTable (t : Table) (r : Transition) :
    (ofTable t).add (.ofTransition r) = (t.add r).toOption.map ofTable := by
  have hany : ((ofTable t).rules r.state).any (fun q => q.read == bytes r.read) =
      (t.rules r.state).any (fun q => q.read == r.read) := by
    rw [rules_ofTable, List.any_map]
    refine congrArg _ (funext fun q => ?_)
    rw [Bool.eq_iff_iff, Function.comp_apply, beq_iff_eq, beq_iff_eq]
    exact bytes_injective.eq_iff
  have hfrozen' : (ofTable t).frozen = t.frozen := rfl
  simp only [add, ByteTransition.state_ofTransition, ByteTransition.read_ofTransition, hany,
    ByteTransition.isValid_ofTransition, Option.not_isNone, hfrozen', insert_ofTable]
  rw [Table.add]
  by_cases hfrozen : t.frozen = true
  · simp [hfrozen, Except.toOption]
  · rw [if_neg hfrozen]
    cases hdefect : r.defect? with
    | some e => simp [Except.toOption]
    | none =>
      cases (t.rules r.state).any (fun q => q.read == r.read) with
      | true => simp [Except.toOption]
      | false =>
        rw [if_neg (by simpa using hfrozen), if_neg Bool.false_ne_true]
        rfl

/-- Nor does it matter for transitions that are added one after the other. -/
theorem addAll_ofTable (t : Table) (rs : List Transition) :
    (ofTable t).addAll (rs.map .ofTransition) =
      (ofTable (t.addAll rs).1, (t.addAll rs).2.isNone) := by
  induction rs generalizing t with
  | nil => rfl
  | cons r rs ih =>
    rw [List.map_cons, addAll, Table.addAll, add_ofTable]
    cases t.add r with
    | error e => rfl
    | ok t' => exact ih t'

/-- State by state, a table of texts has the same transitions. -/
theorem transitions_ofTable {t : Table} (h : t.WellFormed) :
    (ofTable t).transitions = t.transitions.map .ofTransition := by
  rw [transitions, ofTable, List.flatMap_map, ← h.flatMap_rules, List.map_flatMap]
  exact List.flatMap_congr fun s _ => rules_ofTable t s

/-- A text is written in the same way when it is given by its bytes. -/
lemma writeBytes_bytes (page : Bool) (s : String) :
    Json.writeBytes page (bytes s) = Json.writeString page s.toList := by
  rw [Json.writeBytes, Json.writeString, runes_bytes, List.flatMap_map]
  rfl

/-- So is a transition of texts. -/
lemma write_toJson_ofTransition (page : Bool) (r : Transition) :
    (ByteTransition.ofTransition r).toJson.write page = r.toJson.write page := by
  simp only [ByteTransition.toJson, ByteTransition.ofTransition, Transition.toJson, Json.write,
    Json.writeMembers, writeBytes_bytes]

/-- Items that are written in the same way make arrays that are. -/
lemma writeItems_map_congr {page : Bool} {α : Type} {f g : α → Json}
    (h : ∀ x, (f x).write page = (g x).write page) (xs : List α) :
    Json.writeItems page (xs.map f) = Json.writeItems page (xs.map g) := by
  induction xs with
  | nil => rfl
  | cons x xs ih =>
    cases xs with
    | nil => simp only [List.map_cons, List.map_nil, Json.writeItems, h]
    | cons y ys =>
      rw [List.map_cons, List.map_cons] at ih
      simp only [List.map_cons, Json.writeItems, h, ih]

/-- A table of texts has the same JSON text. -/
theorem render_toJson_ofTable {t : Table} (h : t.WellFormed) :
    (ofTable t).toJson.render = t.toJson.render := by
  have hitems := writeItems_map_congr (write_toJson_ofTransition true) t.transitions
  have hinitial : (ofTable t).initial = bytes t.initial := rfl
  simp only [Json.render, toJson, Table.toJson, transitions_ofTable h, List.map_map, Json.write,
    Json.writeMembers, hinitial, writeBytes_bytes]
  rw [← hitems]
  rfl

end ByteTable

end TapeMachine
