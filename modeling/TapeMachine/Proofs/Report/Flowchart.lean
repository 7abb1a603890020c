import Mathlib.Data.List.Nodup
import TapeMachine.Proofs.Report.Drawing
import TapeMachine.Proofs.Text.Cutting

/-!
# What a diagram shows

`readLine` reads one line of a diagram: a node with its identifier, shape and label, an edge between
two identifiers with its label, the style of a node, or something else. A label reaches up to the
next quote, so that a quote within a label would be seen. Lines of these three kinds are read as
they were written (`readLine_node`, `readLine_edge`, `readLine_style`).

States are numbered by their places in `nodes`. What the lines of a diagram are read as is therefore
decided by two lists without repetitions, that of the names and that of the pairs that rules connect
(`Covers`), and by the identifiers that a run is shown at (`Highlights`); `diagram_shows_table` says
so for every table and every run.
-/

namespace TapeMachine.Diagram

open Text

/-! ## Reading a diagram -/

/-- How the label of a node is enclosed. -/
inductive Shape where
  | circle
  | rounded
  | hexagon
  | box
deriving DecidableEq

/-- What stands before and behind the label of a node. -/
def Shape.marks : Shape → String × String
  | .circle => ("((\"", "\"))")
  | .rounded => ("([\"", "\"])")
  | .hexagon => ("\x7b\x7b\"", "\"\x7d\x7d")
  | .box => ("[\"", "\"]")

/-- What a line of a diagram says. -/
inductive Statement where
  | node (id : String) (shape : Shape) (label : String)
  | edge (source label target : String)
  | style (id kind : String)
  | other (line : String)
deriving DecidableEq

/-- What is left of a text behind a mark that it starts with. -/
def skip? : List Char → List Char → Option (List Char)
  | [], cs => some cs
  | m :: ms, c :: cs => if m = c then skip? ms cs else none
  | _ :: _, [] => none

/-- A label, up to the quote that ends it, and the text from that quote on. -/
def label (cs : List Char) : String × List Char :=
  (String.ofList (cs.takeWhile (· != '"')), cs.dropWhile (· != '"'))

/-- An identifier, and what stands behind it. -/
def identifier (cs : List Char) : String × List Char :=
  (String.ofList (cs.takeWhile (·.isAlphanum)), cs.dropWhile (·.isAlphanum))

/-- Reads a node of one shape. -/
def readNode (id : String) (cs : List Char) (shape : Shape) : Option Statement :=
  (skip? shape.marks.1.toList cs).bind fun cs =>
    if (label cs).2 = shape.marks.2.toList then some (.node id shape (label cs).1) else none

/-- What stands between the start of an edge and its label. -/
def edgeOpening : List Char := [' ', '-', '-', ' ', '"']

/-- What stands between the label of an edge and its end. -/
def edgeClosing : List Char := ['"', ' ', '-', '-', '>', ' ']

/-- Reads an edge that starts at a node. -/
def readEdge (id : String) (cs : List Char) : Option Statement :=
  (skip? edgeOpening cs).bind fun cs =>
    (skip? edgeClosing (label cs).2).map fun target => .edge id (label cs).1 (String.ofList target)

/-- What the style of a node starts with. -/
def styleOpening : List Char := ['c', 'l', 'a', 's', 's', ' ']

/-- Reads the style of a node. -/
def readStyle (cs : List Char) : Option Statement :=
  (skip? styleOpening cs).bind fun cs =>
    (skip? [' '] (identifier cs).2).bind fun kind =>
      if (identifier kind).2 = [';'] then some (.style (identifier cs).1 (identifier kind).1)
      else none

/-- What a line about a node starts with. -/
def indent : List Char := [' ', ' ', ' ', ' ']

/-- Reads a line. -/
def readLine (line : List Char) : Statement :=
  ((skip? indent line).bind fun cs =>
    readStyle cs <|> readEdge (identifier cs).1 (identifier cs).2 <|>
      [Shape.circle, .rounded, .hexagon, .box].findSome?
        (readNode (identifier cs).1 (identifier cs).2)).getD (.other (String.ofList line))

/-! ## The reader on written lines -/

/-- The characters of a line that declares a node. -/
def nodeChars (i : ℕ) (shape : Shape) (text : String) : List Char :=
  indent ++ ((nodeId i).toList ++ (shape.marks.1.toList ++ (text.toList ++ shape.marks.2.toList)))

/-- The characters of a line that draws an edge. -/
def edgeChars (i j : ℕ) (text : String) : List Char :=
  indent ++ ((nodeId i).toList ++ (edgeOpening ++ (text.toList ++
    (edgeClosing ++ (nodeId j).toList))))

/-- The characters of a line that styles a node. -/
def styleChars (kind id : String) : List Char :=
  indent ++ (styleOpening ++ (id.toList ++ ([' '] ++ (kind.toList ++ [';']))))

/-- A mark is skipped where it stands. -/
@[simp] lemma skip?_append (mark cs : List Char) : skip? mark (mark ++ cs) = some cs := by
  induction mark with
  | nil => rfl
  | cons m mark ih => simpa [skip?] using ih

/-- A label without quotes is read up to the quote behind it. -/
lemma label_append {s : String} (hs : '"' ∉ s.toList) (cs : List Char) :
    label (s.toList ++ '"' :: cs) = (s, '"' :: cs) := by
  have hall : ∀ c ∈ s.toList, (c != '"') = true := fun c hc => bne_iff_ne.mpr fun h => hs (h ▸ hc)
  rw [label, List.takeWhile_append_of_pos hall, List.dropWhile_append_of_pos hall]
  simp

/-- An identifier is read up to the first character that is no letter and no digit. -/
lemma identifier_append {id : String} (hid : ∀ c ∈ id.toList, c.isAlphanum = true) {c : Char}
    (hc : c.isAlphanum = false) (cs : List Char) :
    identifier (id.toList ++ c :: cs) = (id, c :: cs) := by
  rw [identifier, List.takeWhile_append_of_pos hid, List.dropWhile_append_of_pos hid]
  simp [hc]

/-- The characters of an identifier. -/
lemma isAlphanum_of_mem_nodeId {i : ℕ} {c : Char} (hc : c ∈ (nodeId i).toList) :
    c.isAlphanum = true := by
  rw [nodeId, String.toList_append, List.mem_append, Nat.toString_eq_repr, Nat.toList_repr] at hc
  rcases hc with hc | hc
  · rw [List.mem_singleton.mp hc]
    decide
  · have hdigit := Nat.isDigit_of_mem_toDigits (by decide) (by decide) hc
    rw [Char.isAlphanum, hdigit, Bool.or_true]

/-- Different places have different identifiers. -/
lemma nodeId_inj {i j : ℕ} : nodeId i = nodeId j ↔ i = j := by
  have hdigits : Function.LeftInverse (fun ds => Nat.ofDigitChars 10 ds 0) (Nat.toDigits 10) :=
    fun _ => Nat.ofDigitChars_ten_toDigits
  rw [← String.toList_inj, nodeId, nodeId, String.toList_append, String.toList_append,
    List.append_cancel_left_eq, Nat.toString_eq_ofList_toDigits, Nat.toString_eq_ofList_toDigits,
    String.toList_ofList, String.toList_ofList]
  exact hdigits.injective.eq_iff

/-- A line that starts with an identifier has no style in it. -/
lemma readStyle_nodeId (i : ℕ) (cs : List Char) : readStyle ((nodeId i).toList ++ cs) = none := by
  rw [nodeId, String.toList_append]
  rfl

section Node

variable (i : ℕ) (shape : Shape) (cs : List Char)

/-- The identifier of a node is read up to the mark that opens its shape. -/
lemma identifier_marks : identifier ((nodeId i).toList ++ (shape.marks.1.toList ++ cs)) =
    (nodeId i, shape.marks.1.toList ++ cs) := by
  cases shape <;> exact identifier_append (fun _ => isAlphanum_of_mem_nodeId) rfl _

/-- The line of a node is not taken for an edge. -/
lemma readEdge_marks (id : String) : readEdge id (shape.marks.1.toList ++ cs) = none := by
  cases shape <;> rfl

/-- A node is read by its own shape and not by another. -/
lemma readNode_marks {s : String} (hs : '"' ∉ s.toList) (id : String) (other : Shape) :
    readNode id (shape.marks.1.toList ++ (s.toList ++ shape.marks.2.toList)) other =
      if other = shape then some (.node id shape s) else none := by
  have hlabel : label (s.toList ++ shape.marks.2.toList) = (s, shape.marks.2.toList) := by
    cases shape <;> exact label_append hs _
  by_cases heq : other = shape
  · subst heq
    rw [readNode, skip?_append, Option.bind_some, hlabel, if_pos rfl, if_pos rfl]
  · rw [if_neg heq, readNode]
    have hskip : skip? other.marks.1.toList
        (shape.marks.1.toList ++ (s.toList ++ shape.marks.2.toList)) = none := by
      cases other <;> cases shape <;> first | exact absurd rfl heq | rfl
    rw [hskip, Option.bind_none]

/-- A declared node is read as it was written. -/
theorem readLine_node {s : String} (hs : '"' ∉ s.toList) :
    readLine (nodeChars i shape s) = .node (nodeId i) shape s := by
  have hnode : [Shape.circle, .rounded, .hexagon, .box].findSome?
      (readNode (nodeId i) (shape.marks.1.toList ++ (s.toList ++ shape.marks.2.toList))) =
        some (.node (nodeId i) shape s) := by
    cases shape <;> simp [List.findSome?, readNode_marks _ hs]
  rw [readLine, nodeChars, skip?_append, Option.bind_some, readStyle_nodeId, identifier_marks,
    readEdge_marks, hnode]
  rfl

end Node

/-- A drawn edge is read as it was written. -/
theorem readLine_edge (i j : ℕ) {s : String} (hs : '"' ∉ s.toList) :
    readLine (edgeChars i j s) = .edge (nodeId i) s (nodeId j) := by
  have hid : identifier ((nodeId i).toList ++ (edgeOpening ++ (s.toList ++
      (edgeClosing ++ (nodeId j).toList)))) =
        (nodeId i, edgeOpening ++ (s.toList ++ (edgeClosing ++ (nodeId j).toList))) :=
    identifier_append (fun _ => isAlphanum_of_mem_nodeId) rfl _
  have hlabel : label (s.toList ++ (edgeClosing ++ (nodeId j).toList)) =
      (s, edgeClosing ++ (nodeId j).toList) := label_append hs _
  rw [readLine, edgeChars, skip?_append, Option.bind_some, readStyle_nodeId, hid, readEdge,
    skip?_append, Option.bind_some, hlabel, skip?_append, Option.map_some, String.ofList_toList]
  rfl

example : readLine "    s0 -- \"0/1,r<br/>1/0,l\" --> s1".toList =
    .edge "s0" "0/1,r<br/>1/0,l" "s1" := by decide +kernel

/-- The style of a node is read as it was written. -/
theorem readLine_style (i : ℕ) {kind : String} (hkind : ∀ c ∈ kind.toList, c.isAlphanum = true) :
    readLine (styleChars kind (nodeId i)) = .style (nodeId i) kind := by
  have hid : identifier ((nodeId i).toList ++ ([' '] ++ (kind.toList ++ [';']))) =
      (nodeId i, [' '] ++ (kind.toList ++ [';'])) :=
    identifier_append (fun _ => isAlphanum_of_mem_nodeId) rfl _
  have hlast : identifier (kind.toList ++ [';']) = (kind, [';']) := identifier_append hkind rfl []
  rw [readLine, styleChars, skip?_append, Option.bind_some, readStyle, skip?_append,
    Option.bind_some, hid, skip?_append, Option.bind_some, hlast, if_pos rfl]
  rfl

/-! ## Shapes and labels -/

/-- The shape of a state: a circle for the start state, else rounded if it is halting, else a
hexagon if it has no rules, and else a box. -/
def shapeOf (t : Table) (s : String) : Shape :=
  if s = t.initial then .circle
  else if isHalting s = true then .rounded
  else if s ∉ t.states then .hexagon
  else .box

/-- The marks around a node are those of its shape. -/
lemma shape_eq (t : Table) (s : String) : shape t s = (shapeOf t s).marks := by
  have hstate : (!t.hasState s) = true ↔ s ∉ t.states := by
    rw [Table.mem_states_iff_hasState, Bool.not_eq_true', Bool.not_eq_true]
  simp only [shape, shapeOf, beq_iff_eq, hstate]
  split_ifs <;> rfl

/-- What a label of an edge says of a rule. -/
def ruleText (r : Transition) : String :=
  escape r.read ++ "/" ++ escape r.write ++ "," ++ r.direction.letter

/-- What a label says of all rules from one state to another. -/
def ruleTexts (t : Table) (e : String × String) : String :=
  "<br/>".intercalate
    ((t.transitions.filter fun r => r.state = e.1 ∧ r.next = e.2).map ruleText)

/-- The characters that stand for one in a label. -/
def escapeChar (c : Char) : List Char :=
  if c == '"' then "#quot;".toList else [c]

/-- Escaping goes character by character. -/
lemma toList_escape (s : String) : (escape s).toList = s.toList.flatMap escapeChar := by
  rw [escape, String.toList_ofList]
  rfl

/-- Escaping goes piece by piece. -/
lemma escape_append (a b : String) : escape (a ++ b) = escape a ++ escape b := by
  rw [← String.toList_inj, toList_escape, String.toList_append, String.toList_append,
    List.flatMap_append, toList_escape, toList_escape]

/-- A text without quotes is left alone. -/
lemma escape_eq_self {s : String} (hs : '"' ∉ s.toList) : escape s = s := by
  have hchar : ∀ c ∈ s.toList, escapeChar c = [c] := by
    intro c hc
    rw [escapeChar, if_neg]
    rintro h
    exact hs (beq_iff_eq.mp h ▸ hc)
  rw [← String.toList_inj, toList_escape, List.flatMap_congr hchar, List.flatMap_singleton']

/-- No quote is left in an escaped text. -/
lemma quote_notMem_escape (s : String) : '"' ∉ (escape s).toList := by
  rw [toList_escape, List.mem_flatMap]
  rintro ⟨c, -, hc⟩
  unfold escapeChar at hc
  split at hc
  · exact absurd hc (by decide)
  · rename_i hne
    exact hne (beq_iff_eq.mpr (List.mem_singleton.mp hc).symm)

/-- Escaping brings in no newline. -/
lemma newline_notMem_escape {s : String} (hs : '\n' ∉ s.toList) : '\n' ∉ (escape s).toList := by
  rw [toList_escape, List.mem_flatMap]
  rintro ⟨c, hc, hmem⟩
  unfold escapeChar at hmem
  split at hmem
  · exact absurd hmem (by decide)
  · exact hs (List.mem_singleton.mp hmem ▸ hc)

/-- Escaping can be done before texts are put together, if there is no quote between them. -/
lemma escape_intercalate {sep : String} (hsep : '"' ∉ sep.toList) (texts : List String) :
    escape (sep.intercalate texts) = sep.intercalate (texts.map escape) := by
  induction texts with
  | nil => rfl
  | cons a texts ih =>
    cases texts with
    | nil => simp
    | cons b texts =>
      rw [String.intercalate_cons_cons, escape_append, escape_append, ih, escape_eq_self hsep]
      simp [String.intercalate_cons_cons]

/-- What is in texts that are put together is in one of them or between them. -/
lemma of_mem_intercalate {sep : String} {texts : List String} {c : Char}
    (hc : c ∈ (sep.intercalate texts).toList) : c ∈ sep.toList ∨ ∃ s ∈ texts, c ∈ s.toList := by
  induction texts with
  | nil => simp at hc
  | cons a texts ih =>
    cases texts with
    | nil =>
      rw [String.intercalate_singleton] at hc
      exact .inr ⟨a, .head _, hc⟩
    | cons b texts =>
      rw [String.intercalate_cons_cons, String.toList_append, String.toList_append,
        List.mem_append, List.mem_append] at hc
      rcases hc with (hc | hc) | hc
      · exact .inr ⟨a, .head _, hc⟩
      · exact .inl hc
      · refine (ih hc).imp_right ?_
        rintro ⟨s, hs, hc⟩
        exact ⟨s, .tail _ hs, hc⟩

/-- The label of an edge, rule by rule. -/
lemma escape_edgeLabel (t : Table) (e : String × String) :
    escape (edgeLabel t e) = ruleTexts t e := by
  have hrule : ∀ r, escape (ruleLabel r) = ruleText r := by
    intro r
    have hletter : '"' ∉ r.direction.letter.toList := by cases r.direction <;> decide
    rw [ruleLabel, ruleText, escape_append, escape_append, escape_append, escape_append,
      escape_eq_self (by decide : '"' ∉ "/".toList), escape_eq_self (by decide : '"' ∉ ",".toList),
      escape_eq_self hletter]
  rw [edgeLabel, escape_intercalate (by decide), ruleTexts, List.map_map]
  have hrules : escape ∘ ruleLabel = ruleText := funext hrule
  rw [hrules]
  congr 2
  refine List.filter_congr fun r _ => ?_
  rw [Bool.eq_iff_iff]
  simp

/-- The label of an edge has no quote in it. -/
lemma quote_notMem_ruleTexts (t : Table) (e : String × String) :
    '"' ∉ (ruleTexts t e).toList := by
  rw [← escape_edgeLabel]
  exact quote_notMem_escape _

/-- The label of an edge has no newline in it, if no name and no symbol has. -/
lemma newline_notMem_ruleTexts {t : Table}
    (h : ∀ r ∈ t.transitions, ∀ f ∈ r.texts, '\n' ∉ f.toList) (e : String × String) :
    '\n' ∉ (ruleTexts t e).toList := by
  rw [← escape_edgeLabel]
  refine newline_notMem_escape fun hmem => ?_
  rcases of_mem_intercalate hmem with hmem | ⟨s, hs, hmem⟩
  · exact absurd hmem (by decide)
  obtain ⟨r, hr, rfl⟩ := List.mem_map.mp hs
  have htexts := h r (List.mem_filter.mp hr).1
  have hread : '\n' ∉ r.read.toList := htexts _ (by simp [Transition.texts])
  have hwrite : '\n' ∉ r.write.toList := htexts _ (by simp [Transition.texts])
  have hletter : '\n' ∉ r.direction.letter.toList := by cases r.direction <;> decide
  simp [ruleLabel, hread, hwrite, hletter] at hmem

/-! ## The lines of a diagram -/

/-- The line of a node is written as its characters and a newline. -/
lemma toList_nodeLine (t : Table) (i : ℕ) (s : String) :
    (nodeLine t (nodeId i) s).toList = nodeChars i (shapeOf t s) (escape s) ++ ['\n'] := by
  simp [nodeLine, shape_eq, nodeChars, indent]

/-- The line of an edge is written as its characters and a newline. -/
lemma toList_edgeLine (t : Table) (e : String × String) (i j : ℕ) :
    (edgeLine (nodeId i) (edgeLabel t e) (nodeId j)).toList =
      edgeChars i j (ruleTexts t e) ++ ['\n'] := by
  simp [edgeLine, escape_edgeLabel, edgeChars, indent, edgeOpening, edgeClosing]

section Newlines

open List (not_mem_append)

/-- No identifier of a node has a newline in it. -/
lemma newline_notMem_nodeId (i : ℕ) : '\n' ∉ (nodeId i).toList := fun h =>
  absurd (isAlphanum_of_mem_nodeId h) (by decide)

/-- The line of a node has no newline in it. -/
lemma newline_notMem_nodeChars (i : ℕ) (shape : Shape) {text : String}
    (htext : '\n' ∉ text.toList) : '\n' ∉ nodeChars i shape text := by
  have hmarks : '\n' ∉ shape.marks.1.toList ∧ '\n' ∉ shape.marks.2.toList := by
    cases shape <;> decide +kernel
  rw [nodeChars]
  exact not_mem_append (by decide) (not_mem_append (newline_notMem_nodeId i)
    (not_mem_append hmarks.1 (not_mem_append htext hmarks.2)))

/-- The line of an edge has no newline in it. -/
lemma newline_notMem_edgeChars (i j : ℕ) {text : String} (htext : '\n' ∉ text.toList) :
    '\n' ∉ edgeChars i j text := by
  rw [edgeChars]
  exact not_mem_append (by decide) (not_mem_append (newline_notMem_nodeId i)
    (not_mem_append (by decide) (not_mem_append htext
      (not_mem_append (by decide) (newline_notMem_nodeId j)))))

/-- The line of a style has no newline in it. -/
lemma newline_notMem_styleChars (i : ℕ) {kind : String} (hkind : '\n' ∉ kind.toList) :
    '\n' ∉ styleChars kind (nodeId i) := by
  rw [styleChars]
  exact not_mem_append (by decide) (not_mem_append (by decide)
    (not_mem_append (newline_notMem_nodeId i) (not_mem_append (by decide)
      (not_mem_append hkind (by decide)))))

end Newlines

/-! ## A run on a diagram -/

/-- The lines that introduce a run. -/
def legendLines : List String :=
  ["", "    %% Overlay Styles",
    "    classDef visited fill:#e1f5fe,stroke:#01579b,stroke-width:2px,color:#000;",
    "    classDef final fill:#ffeb3b,stroke:#fbc02d,stroke-width:4px,color:#000;"]

/-- The lines that show a run. -/
def overlayLines (ns : List String) (o : Overlay) : List (List Char) :=
  legendLines.map String.toList ++ ((visitedIds ns o).map (styleChars "visited") ++
    (idOf? ns o.final).toList.map (styleChars "final"))

/-- The styles are defined line by line. -/
lemma legend_eq : legend = String.join (legendLines.map (· ++ "\n")) := by
  decide +kernel

/-- What shows a run is written line by line. -/
lemma toList_overlayText (ns : List String) (o : Overlay) :
    (overlayText ns o).toList = (overlayLines ns o).flatMap (· ++ ['\n']) := by
  have hlegend : (String.join (legendLines.map (· ++ "\n"))).toList =
      (legendLines.map String.toList).flatMap (· ++ ['\n']) :=
    toList_join_map fun _ _ => String.toList_append
  have hvisited : (String.join ((visitedIds ns o).map
      fun id => "    class " ++ id ++ " visited;\n")).toList =
        ((visitedIds ns o).map (styleChars "visited")).flatMap (· ++ ['\n']) :=
    toList_join_map fun id _ => by simp [styleChars, indent, styleOpening]
  have hfinal : ((idOf? ns o.final).elim "" fun id => "    class " ++ id ++ " final;\n").toList =
        ((idOf? ns o.final).toList.map (styleChars "final")).flatMap (· ++ ['\n']) := by
    cases idOf? ns o.final with
    | none => rfl
    | some id => simp [styleChars, indent, styleOpening]
  have htext : overlayText ns o = legend ++ String.join ((visitedIds ns o).map
      fun id => "    class " ++ id ++ " visited;\n") ++
      (idOf? ns o.final).elim "" fun id => "    class " ++ id ++ " final;\n" := by
    rw [overlayText, foldl_noteVisited]
    cases idOf? ns o.final <;> rfl
  rw [htext, legend_eq, String.toList_append, String.toList_append, hlegend, hvisited, hfinal,
    overlayLines, List.flatMap_append, List.flatMap_append, List.append_assoc]

/-- No line that shows a run has a newline in it. -/
lemma newline_notMem_overlayLines (ns : List String) (o : Overlay) :
    ∀ l ∈ overlayLines ns o, '\n' ∉ l := by
  intro l hl
  rcases List.mem_append.mp hl with hl | hl
  · obtain ⟨line, hline, rfl⟩ := List.mem_map.mp hl
    exact (by decide +kernel : ∀ line ∈ legendLines, '\n' ∉ line.toList) line hline
  rcases List.mem_append.mp hl with hl | hl
  · obtain ⟨id, hid, rfl⟩ := List.mem_map.mp hl
    obtain ⟨s, -, -, rfl⟩ := mem_visitedIds_iff.mp hid
    exact newline_notMem_styleChars _ (by simp)
  · obtain ⟨id, hid, rfl⟩ := List.mem_map.mp hl
    obtain ⟨-, rfl⟩ := idOf?_eq_some_iff.mp (Option.mem_toList.mp hid)
    exact newline_notMem_styleChars _ (by simp)

/-- The legend says nothing of a node, and the rest of it is read as it was written. -/
lemma map_readLine_overlayLines (ns : List String) (o : Overlay) :
    (overlayLines ns o).map readLine = legendLines.map Statement.other ++
      ((visitedIds ns o).map (Statement.style · "visited") ++
        (idOf? ns o.final).toList.map (Statement.style · "final")) := by
  have hlegend : (legendLines.map String.toList).map readLine =
      legendLines.map Statement.other := by decide +kernel
  have hvisited : ∀ c ∈ "visited".toList, c.isAlphanum = true := by simp
  have hfinal : ∀ c ∈ "final".toList, c.isAlphanum = true := by simp
  rw [overlayLines, List.map_append, List.map_append, hlegend, List.map_map, List.map_map]
  congr 2
  · refine List.map_congr_left fun id hid => ?_
    obtain ⟨s, -, -, rfl⟩ := mem_visitedIds_iff.mp hid
    exact readLine_style _ hvisited
  · refine List.map_congr_left fun id hid => ?_
    obtain ⟨-, rfl⟩ := idOf?_eq_some_iff.mp (Option.mem_toList.mp hid)
    exact readLine_style _ hfinal

/-! ## A whole diagram -/

/-- The lines of a diagram. -/
def diagramLines (t : Table) (overlay : Option Overlay) : List (List Char) :=
  "graph LR".toList ::
    ((nodes t).zipIdx.map (fun n => nodeChars n.2 (shapeOf t n.1) (escape n.1)) ++
    ((edges t).map (fun e =>
      edgeChars ((nodes t).idxOf e.1) ((nodes t).idxOf e.2) (ruleTexts t e)) ++
    overlay.toList.flatMap (overlayLines (nodes t))))

/-- A diagram is written line by line. -/
lemma toList_render {t : Table} (ht : t.WellFormed) (overlay : Option Overlay) :
    (render t overlay).toList = (diagramLines t overlay).flatMap (· ++ ['\n']) := by
  have hnodes : (Drawing.declarations t (nodes t)).toList =
      ((nodes t).zipIdx.map fun n => nodeChars n.2 (shapeOf t n.1) (escape n.1)).flatMap
        (· ++ ['\n']) := toList_join_map fun n _ => toList_nodeLine t n.2 n.1
  have hedges : (String.join ((edges t).map fun e => edgeLine (nodeId ((nodes t).idxOf e.1))
      (edgeLabel t e) (nodeId ((nodes t).idxOf e.2)))).toList =
      ((edges t).map fun e => edgeChars ((nodes t).idxOf e.1) ((nodes t).idxOf e.2)
        (ruleTexts t e)).flatMap (· ++ ['\n']) :=
    toList_join_map fun e _ => toList_edgeLine t e _ _
  rw [render_eq ht, diagramLines, List.flatMap_cons, List.flatMap_append, List.flatMap_append,
    ← hnodes, ← hedges]
  cases overlay with
  | none => simp
  | some o => simp [toList_overlayText]

/-- No line of a diagram has a newline in it, if no name and no symbol has. -/
lemma newline_notMem_diagramLines {t : Table} (ht : t.WellFormed)
    (htexts : ∀ r ∈ t.transitions, ∀ f ∈ r.texts, '\n' ∉ f.toList)
    (hinitial : '\n' ∉ t.initial.toList) (overlay : Option Overlay) :
    ∀ l ∈ diagramLines t overlay, '\n' ∉ l := by
  have hname : ∀ s ∈ nodes t, '\n' ∉ s.toList := by
    intro s hs
    rcases mem_nodes_iff.mp hs with ⟨rfl, -⟩ | hs | ⟨r, hr, rfl⟩
    · exact hinitial
    · obtain ⟨r, hr, rfl⟩ := ht.mem_states_iff.mp hs
      exact htexts r hr _ (by simp [Transition.texts])
    · exact htexts r hr _ (by simp [Transition.texts])
  intro l hl
  simp only [diagramLines, List.mem_cons, List.mem_append, List.mem_map, List.mem_flatMap] at hl
  rcases hl with rfl | ⟨⟨s, i⟩, hs, rfl⟩ | ⟨e, -, rfl⟩ | ⟨o, -, hl⟩
  · decide
  · have hs : '\n' ∉ s.toList := hname s (List.fst_mem_of_mem_zipIdx hs)
    exact newline_notMem_nodeChars i _ (newline_notMem_escape hs)
  · exact newline_notMem_edgeChars _ _ (newline_notMem_ruleTexts htexts e)
  · exact newline_notMem_overlayLines _ o l hl

/-- The lines of a diagram are read as they were written. -/
lemma map_readLine_diagramLines (t : Table) (overlay : Option Overlay) :
    (diagramLines t overlay).map readLine = Statement.other "graph LR" ::
      ((nodes t).zipIdx.map (fun n => Statement.node (nodeId n.2) (shapeOf t n.1) (escape n.1)) ++
        ((edges t).map (fun e => Statement.edge (nodeId ((nodes t).idxOf e.1)) (ruleTexts t e)
          (nodeId ((nodes t).idxOf e.2))) ++
        overlay.toList.flatMap fun o => (overlayLines (nodes t) o).map readLine)) := by
  have hfirst : readLine "graph LR".toList = .other "graph LR" := by decide +kernel
  have hnodes :
      ((nodes t).zipIdx.map fun n => nodeChars n.2 (shapeOf t n.1) (escape n.1)).map readLine =
        (nodes t).zipIdx.map fun n => Statement.node (nodeId n.2) (shapeOf t n.1) (escape n.1) := by
    rw [List.map_map]
    exact List.map_congr_left fun n _ => readLine_node _ _ (quote_notMem_escape n.1)
  have hedges : ((edges t).map fun e => edgeChars ((nodes t).idxOf e.1) ((nodes t).idxOf e.2)
      (ruleTexts t e)).map readLine = (edges t).map fun e =>
        Statement.edge (nodeId ((nodes t).idxOf e.1)) (ruleTexts t e)
          (nodeId ((nodes t).idxOf e.2)) := by
    rw [List.map_map]
    exact List.map_congr_left fun e _ => readLine_edge _ _ (quote_notMem_ruleTexts t e)
  rw [diagramLines, List.map_cons, List.map_append, List.map_append, hfirst, hnodes, hedges,
    List.map_flatMap]

/-- The names that have a node, and the pairs that have an edge: the start state, the states with
rules and the next states, and each state with each of its next states, all of them once. -/
structure Covers (t : Table) (names : List String) (pairs : List (String × String)) : Prop where
  nodup_names : names.Nodup
  mem_names : ∀ s, s ∈ names ↔
    s = t.initial ∧ s ≠ "" ∨ s ∈ t.states ∨ ∃ r ∈ t.transitions, r.next = s
  nodup_pairs : pairs.Nodup
  mem_pairs : ∀ e, e ∈ pairs ↔ ∃ r ∈ t.transitions, (r.state, r.next) = e

/-- What is drawn has these names and pairs. -/
lemma covers (t : Table) : Covers t (nodes t) (edges t) where
  nodup_names := nodup_nodes t
  mem_names _ := mem_nodes_iff
  nodup_pairs := nodup_edges t
  mem_pairs _ := mem_edges_iff

/-- The identifiers that a run is shown at: those of the visited states with a node, each once, and
that of the last state, if it has a node. -/
structure Highlights (overlay : Option Overlay) (names visited : List String)
    (final : Option String) : Prop where
  nodup_visited : visited.Nodup
  mem_visited : ∀ id, id ∈ visited ↔
    ∃ o ∈ overlay, ∃ s ∈ o.visited, s ∈ names ∧ id = nodeId (names.idxOf s)
  final_eq : ∀ id, final = some id ↔
    ∃ o ∈ overlay, o.final ∈ names ∧ id = nodeId (names.idxOf o.final)

/-- The diagram of a table whose names and symbols hold no newline, read line by line: after the
title one node for each name, numbered in the order of the nodes and shaped by what the state is;
one edge for each pair, between the identifiers of its states, which tells all its rules in order;
and, if a run is laid over it, the legend and the identifiers that the run is shown at. No label has
a quote in it. -/
theorem diagram_shows_table {t : Table} (ht : t.Reachable)
    (htexts : ∀ r ∈ t.transitions, ∀ f ∈ r.texts, '\n' ∉ f.toList)
    (hinitial : '\n' ∉ t.initial.toList) (overlay : Option Overlay) :
    ∃ names pairs visited final, Covers t names pairs ∧ Highlights overlay names visited final ∧
      ((List.range names.length).map nodeId).Nodup ∧
      (∀ e ∈ pairs, e.1 ∈ names ∧ e.2 ∈ names) ∧
      (∀ s ∈ names, '"' ∉ (escape s).toList) ∧ (∀ e ∈ pairs, '"' ∉ (ruleTexts t e).toList) ∧
      (lines (render t overlay).toList).map readLine =
        [Statement.other "graph LR"] ++
        names.zipIdx.map (fun n => Statement.node (nodeId n.2) (shapeOf t n.1) (escape n.1)) ++
        pairs.map (fun e =>
          Statement.edge (nodeId (names.idxOf e.1)) (ruleTexts t e) (nodeId (names.idxOf e.2))) ++
        (if overlay.isSome then legendLines.map Statement.other else []) ++
        visited.map (Statement.style · "visited") ++ final.toList.map (Statement.style · "final") ++
        [Statement.other ""] := by
  have hwf := ht.wellFormed
  have hids : ((List.range (nodes t).length).map nodeId).Nodup :=
    List.nodup_range.map fun _ _ => nodeId_inj.mp
  have hlines : (diagramLines t overlay).flatMap lines = diagramLines t overlay :=
    flatMap_lines_of_notMem (newline_notMem_diagramLines hwf htexts hinitial overlay)
  have hread : (lines (render t overlay).toList).map readLine =
      (diagramLines t overlay).map readLine ++ [Statement.other ""] := by
    rw [toList_render hwf, ← List.append_nil (List.flatMap _ _), lines_flatMap_append, hlines,
      List.map_append]
    rfl
  refine ⟨nodes t, edges t, (overlay.map (visitedIds (nodes t))).getD [],
    overlay.bind fun o => idOf? (nodes t) o.final, covers t, ?_, hids,
    fun e => mem_nodes_of_mem_edges hwf, fun s _ => quote_notMem_escape s,
    fun e _ => quote_notMem_ruleTexts t e, ?_⟩
  · cases overlay with
    | none => exact ⟨List.nodup_nil, by simp, by simp⟩
    | some o =>
      refine ⟨nodup_eraseDups _, fun id => ?_, fun id => ?_⟩
      · simpa using mem_visitedIds_iff
      · simpa using idOf?_eq_some_iff
  · rw [hread, map_readLine_diagramLines]
    cases overlay with
    | none => simp
    | some o => simp [map_readLine_overlayLines]

/-- A machine with quotes in a name and in a symbol. -/
def quotes : Table :=
  Table.empty.perform (.addAll [⟨"a", "0", "1", "r", "a"⟩, ⟨"a", "1", "\"", "r", "\"b\""⟩,
    ⟨"a", "*", "*", "l", "a"⟩, ⟨"\"b\"", "*", "_", "*", "halt"⟩])

/-- A run that comes back to its start, and one state of which is not in the table. -/
def detour : Overlay where
  visited := ["a", "elsewhere", "a"]
  final := "halt"

/-- The quotes are escaped and the two rules of the loop share one edge. -/
theorem diagram_shows_table_quotes :
    (quotes.Reachable ∧ (∀ r ∈ quotes.transitions, ∀ f ∈ r.texts, '\n' ∉ f.toList) ∧
      '\n' ∉ quotes.initial.toList) ∧
    ∃ names : List String, names.Nodup ∧ (∀ s ∈ ["a", "\"b\"", "halt"], s ∈ names) ∧
      ∀ statement ∈ [Statement.node (nodeId (names.idxOf "\"b\"")) .box "#quot;b#quot;",
          .edge (nodeId (names.idxOf "a")) "0/1,r<br/>*/*,l" (nodeId (names.idxOf "a")),
          .edge (nodeId (names.idxOf "a")) "1/#quot;,r" (nodeId (names.idxOf "\"b\"")),
          .style (nodeId (names.idxOf "a")) "visited",
          .style (nodeId (names.idxOf "halt")) "final"],
        statement ∈ (lines (render quotes (some detour)).toList).map readLine := by
  have hreachable : quotes.Reachable := .step .empty _
  have htexts : ∀ r ∈ quotes.transitions, ∀ f ∈ r.texts, '\n' ∉ f.toList := by decide +kernel
  have hinitial : '\n' ∉ quotes.initial.toList := by decide +kernel
  obtain ⟨names, pairs, visited, final, hcovers, hhighlights, -, -, -, -, hread⟩ :=
    diagram_shows_table hreachable htexts hinitial (some detour)
  have hnames : ∀ s ∈ ["a", "\"b\"", "halt"], s ∈ names := by
    have hall : ∀ s ∈ ["a", "\"b\"", "halt"],
        s ∈ quotes.states ∨ ∃ r ∈ quotes.transitions, r.next = s := by decide +kernel
    exact fun s hs => (hcovers.mem_names s).mpr (.inr (hall s hs))
  have hnode : ("\"b\"", names.idxOf "\"b\"") ∈ names.zipIdx := by
    rw [List.mem_zipIdx_iff_getElem?]
    exact List.getElem?_idxOf (hnames _ (by simp))
  have hpairs : ∀ e ∈ [("a", "a"), ("a", "\"b\"")], e ∈ pairs := by
    have hall : ∀ e ∈ [("a", "a"), ("a", "\"b\"")],
        ∃ r ∈ quotes.transitions, (r.state, r.next) = e := by decide +kernel
    exact fun e he => (hcovers.mem_pairs e).mpr (hall e he)
  have hvisited : nodeId (names.idxOf "a") ∈ visited :=
    (hhighlights.mem_visited _).mpr ⟨detour, rfl, "a", .head _, hnames _ (by simp), rfl⟩
  have hfinal : final = some (nodeId (names.idxOf "halt")) :=
    (hhighlights.final_eq _).mpr ⟨detour, rfl, hnames "halt" (by simp), rfl⟩
  have hshape : shapeOf quotes "\"b\"" = .box := by decide +kernel
  have hescape : escape "\"b\"" = "#quot;b#quot;" := by decide +kernel
  have hloop : ruleTexts quotes ("a", "a") = "0/1,r<br/>*/*,l" := by decide +kernel
  have hedge : ruleTexts quotes ("a", "\"b\"") = "1/#quot;,r" := by decide +kernel
  refine ⟨⟨hreachable, htexts, hinitial⟩, names, hcovers.nodup_names, hnames, ?_⟩
  rw [hread]
  simp only [List.forall_mem_cons, List.mem_append, List.mem_map]
  refine ⟨?node, ?loop, ?edge, ?visited, ?final, fun _ h => absurd h List.not_mem_nil⟩
  case node =>
    exact .inl (.inl (.inl (.inl (.inl (.inr ⟨_, hnode, by rw [hshape, hescape]⟩)))))
  case loop =>
    exact .inl (.inl (.inl (.inl (.inr ⟨_, hpairs ("a", "a") (by simp), by rw [hloop]⟩))))
  case edge =>
    exact .inl (.inl (.inl (.inl (.inr ⟨_, hpairs ("a", "\"b\"") (by simp), by rw [hedge]⟩))))
  case visited => exact .inl (.inl (.inr ⟨_, hvisited, rfl⟩))
  case final => exact .inl (.inr ⟨_, Option.mem_toList.mpr hfinal, rfl⟩)

end TapeMachine.Diagram
