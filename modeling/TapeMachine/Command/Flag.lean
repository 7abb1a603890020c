import TapeMachine.Config.Value

/-!
# Flags

A row of arguments mixes flags with other arguments. A flag has a long name, after two dashes, and
may have a letter, after one dash; letters can stand together. The value of a flag follows an
equals sign, or directly its letter, or is the next argument; a switch needs none. Two dashes alone
end the flags. Flags are read from left to right, and the first mistake counts.
-/

namespace TapeMachine.Command

open Text

/-- What a flag holds. -/
inductive FlagKind where
  | text
  | integer
  | duration
  | switch
deriving DecidableEq

/-- A flag. -/
structure Flag where
  name : String
  letter : Option Char := none
  kind : FlagKind := .text
deriving DecidableEq

/-- The value given to a flag. -/
inductive FlagValue where
  | text (s : String)
  | integer (n : Int)
  /-- A number of nanoseconds. -/
  | duration (n : Int)
  | switch (on : Bool)
deriving DecidableEq

/-- Why a text is no value for a flag. -/
inductive ValueError where
  | integer (e : IntegerError)
  | duration (e : Duration.Error)
  | switch

/-- The wording of an error in a value. -/
def ValueError.message (given : String) : ValueError → String
  | .integer e => "strconv.ParseInt: parsing " ++ quoted given ++ ": " ++ e.message
  | .duration e => e.message given
  | .switch =>
    "strconv.ParseBool: parsing " ++ quoted given ++ ": " ++ IntegerError.malformed.message

/-- Why a row of arguments makes no sense. -/
inductive UsageError where
  | badFlag (arg : String)
  | unknownFlag (name : String)
  /-- The letters from the unknown one on. -/
  | unknownLetter (letters : List Char)
  | flagNeedsValue (name : String)
  /-- The letters from the one without a value on. -/
  | letterNeedsValue (letters : List Char)
  | badValue (flag : Flag) (given : String) (e : ValueError)
  | notExactly (want got : Nat)
  | tooMany (most got : Nat)
  | tooFew (least got : Nat)
  | outside (least most got : Nat)
  | unknownCommand (name path : String)

/-- How a flag is named in messages. -/
def Flag.title (f : Flag) : String :=
  match f.letter with
  | some l => "-" ++ String.ofList [l] ++ ", --" ++ f.name
  | none => "--" ++ f.name

/-- The letter that is shown for the first of some letters. Letters are looked at byte by byte, so
of a letter that takes several bytes only the start is seen, and that is shown in one way. -/
def shownLetter (letters : List Char) : String :=
  let c := letters.head?.getD ' '
  String.ofList (quoteChar (if c.toNat < 0x80 then c else Char.ofNat 0xC3))

/-- The wording of each error. -/
def UsageError.message : UsageError → String
  | .badFlag arg => "bad flag syntax: " ++ arg
  | .unknownFlag name => "unknown flag: --" ++ name
  | .unknownLetter letters =>
    "unknown shorthand flag: " ++ shownLetter letters ++ " in -" ++ String.ofList letters
  | .flagNeedsValue name => "flag needs an argument: --" ++ name
  | .letterNeedsValue letters =>
    "flag needs an argument: " ++ shownLetter letters ++ " in -" ++ String.ofList letters
  | .badValue flag given e =>
    "invalid argument " ++ quoted given ++ " for " ++ quoted flag.title ++ " flag: " ++
      e.message given
  | .notExactly want got =>
    "accepts " ++ toString want ++ " arg(s), received " ++ toString got
  | .tooMany most got =>
    "accepts at most " ++ toString most ++ " arg(s), received " ++ toString got
  | .tooFew least got =>
    "requires at least " ++ toString least ++ " arg(s), only received " ++ toString got
  | .outside least most got =>
    "accepts between " ++ toString least ++ " and " ++ toString most ++
      " arg(s), received " ++ toString got
  | .unknownCommand name path =>
    "unknown command " ++ quoted name ++ " for " ++ quoted path

/-- Reads the value of a flag. -/
def Flag.readValue (f : Flag) (given : String) : Except UsageError FlagValue :=
  match f.kind with
  | .text => .ok (.text given)
  | .integer =>
    match literal given with
    | .ok n => .ok (.integer n)
    | .error e => .error (.badValue f given (.integer e))
  | .duration =>
    match Duration.parse given with
    | .ok n => .ok (.duration n)
    | .error e => .error (.badValue f given (.duration e))
  | .switch =>
    match Config.truth? given with
    | some b => .ok (.switch b)
    | none => .error (.badValue f given .switch)

/-! ### Rows of arguments -/

/-- What a row of arguments says: the flags that were given, the last first, and the other
arguments in order. -/
structure Given where
  flags : List (String × FlagValue) := []
  args : List String := []
deriving DecidableEq

namespace Given

/-- Notes the value of a flag. -/
def put (g : Given) (f : Flag) (given : String) : Except UsageError Given :=
  (f.readValue given).map (fun v => { g with flags := (f.name, v) :: g.flags })

/-- Adds an argument. -/
def add (g : Given) (arg : String) : Given := { g with args := g.args ++ [arg] }

/-- The text given to a flag. -/
def text? (g : Given) (name : String) : Option String :=
  match g.flags.lookup name with
  | some (.text s) => some s
  | _ => none

/-- The integer given to a flag. -/
def integer? (g : Given) (name : String) : Option Int :=
  match g.flags.lookup name with
  | some (.integer n) => some n
  | _ => none

/-- The duration given to a flag. -/
def duration? (g : Given) (name : String) : Option Int :=
  match g.flags.lookup name with
  | some (.duration n) => some n
  | _ => none

/-- What a switch was set to. -/
def switch? (g : Given) (name : String) : Option Bool :=
  match g.flags.lookup name with
  | some (.switch b) => some b
  | _ => none

/-- Whether a switch is on; a switch that is not given is off. -/
def isOn (g : Given) (name : String) : Bool := (g.switch? name).getD false

end Given

/-- The flag with a long name. -/
def named? (flags : List Flag) (name : String) : Option Flag :=
  flags.find? (fun f => f.name == name)

/-- The flag with a letter. -/
def lettered? (flags : List Flag) (c : Char) : Option Flag :=
  flags.find? (fun f => f.letter == some c)

/-- A row of letters that is passed over, since test runners give such rows to the programs they
test. -/
def forTestRunner (letters : List Char) : Bool := "test.".toList.isPrefixOf letters

/-- Reads a row of letters. Besides what they say, the letter that still needs a value is given,
with the flag it stands for. -/
def readLetters (flags : List Flag) :
    Given → List Char → Except UsageError (Given × Option (Flag × List Char))
  | g, [] => .ok (g, none)
  | g, c :: cs =>
    if forTestRunner (c :: cs) then .ok (g, none)
    else
      match lettered? flags c with
      | none => .error (.unknownLetter (c :: cs))
      | some f =>
        match cs with
        | '=' :: d :: ds => (g.put f (String.ofList (d :: ds))).map (·, none)
        | _ =>
          if f.kind = .switch then (g.put f "true").bind (fun g => readLetters flags g cs)
          else if cs.isEmpty then .ok (g, some (f, [c]))
          else (g.put f (String.ofList cs)).map (·, none)

/-- A single argument. -/
inductive Arg where
  | plain
  /-- The end of the flags. -/
  | dashes
  | bad
  | long (name : String) (value : Option String)
  | letters (cs : List Char)

/-- What kind of argument a text is. -/
def Arg.of (text : String) : Arg :=
  match text.toList with
  | ['-', '-'] => .dashes
  | '-' :: '-' :: cs =>
    if cs.head? == some '-' || cs.head? == some '=' then .bad
    else
      .long (String.ofList (cs.takeWhile (· != '=')))
        (match cs.dropWhile (· != '=') with
          | _ :: v => some (String.ofList v)
          | [] => none)
  | '-' :: c :: cs => .letters (c :: cs)
  | _ => .plain

/-- Reads a row of arguments behind what has been read already. -/
def readArgs (flags : List Flag) : Given → List String → Except UsageError Given
  | g, [] => .ok g
  | g, s :: rest =>
    match Arg.of s with
    | .plain => readArgs flags (g.add s) rest
    | .dashes => .ok { g with args := g.args ++ rest }
    | .bad => .error (.badFlag s)
    | .long name value =>
      match named? flags name with
      | none => .error (.unknownFlag name)
      | some f =>
        match value with
        | some v => (g.put f v).bind (fun g => readArgs flags g rest)
        | none =>
          if f.kind = .switch then (g.put f "true").bind (fun g => readArgs flags g rest)
          else
            match rest with
            | v :: rest => (g.put f v).bind (fun g => readArgs flags g rest)
            | [] => .error (.flagNeedsValue name)
    | .letters cs =>
      match readLetters flags g cs with
      | .error e => .error e
      | .ok (g, none) => readArgs flags g rest
      | .ok (g, some (f, letters)) =>
        match rest with
        | v :: rest => (g.put f v).bind (fun g => readArgs flags g rest)
        | [] => .error (.letterNeedsValue letters)

/-- Reads a row of arguments. -/
def Given.ofArgs (flags : List Flag) (args : List String) : Except UsageError Given :=
  readArgs flags {} args

end TapeMachine.Command
