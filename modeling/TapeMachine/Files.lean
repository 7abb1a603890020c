import TapeMachine.Text.Blank

/-!
# Files

A tree of folders and files, and the operations on it that this library needs: reading, writing,
appending, listing, removing and making folders. A path is a text; it is followed name by name from
the working folder, or from the root if it starts with a slash. An operation that fails says what
was attempted, on which path, and why.
-/

namespace TapeMachine

/-- Why an operation on files fails. -/
inductive FileFault where
  | notExist
  | notFolder
  | isFolder
  | taken
  | notEmpty
  | nameTooLong
  | badName
  | noSpace
deriving DecidableEq

/-- The wording of each fault. -/
def FileFault.message : FileFault → String
  | .notExist => "no such file or directory"
  | .notFolder => "not a directory"
  | .isFolder => "is a directory"
  | .taken => "file exists"
  | .notEmpty => "directory not empty"
  | .nameTooLong => "file name too long"
  | .badName => "invalid argument"
  | .noSpace => "no space left on device"

/-- An operation that failed. -/
structure FileError where
  action : String
  /-- The path or paths the operation was about. -/
  subject : String
  fault : FileFault
deriving DecidableEq

/-- The wording of a failure. -/
def FileError.message (e : FileError) : String :=
  e.action ++ " " ++ e.subject ++ ": " ++ e.fault.message

/-- What stands at a place of the tree. -/
inductive Entry where
  | file (text : String)
  | folder
  /-- A device that swallows what is written to it. -/
  | sink
  /-- A device that has no room for anything. -/
  | full
deriving DecidableEq

/-- A tree of files. Places are lists of names, from the root on. -/
structure Files where
  entries : List (List String × Entry) := []
  /-- The working folder. -/
  home : List String := []

namespace Files

/-- The tree every program starts with: an empty working folder and two devices. -/
def fresh : Files :=
  { entries := [(["dev"], .folder), (["dev", "null"], .sink), (["dev", "full"], .full),
      (["home"], .folder)]
    home := ["home"] }

/-! ### Places -/

/-- What stands at a place. -/
def entryAt (fs : Files) (place : List String) : Option Entry :=
  if place.isEmpty then some .folder else fs.entries.lookup place

/-- The most bytes a name may have. -/
def maxName : Nat := 255

/-- Follows names from a place. Every place but the last must be a folder. -/
def follow (fs : Files) : List String → List String → Except FileFault (List String)
  | here, [] => .ok here
  | here, name :: names =>
    match fs.entryAt here with
    | none => .error .notExist
    | some .folder =>
      if name == "" || name == "." then fs.follow here names
      else if name == ".." then fs.follow here.dropLast names
      else if maxName < name.utf8ByteSize then .error .nameTooLong
      else fs.follow (here ++ [name]) names
    | some _ => .error .notFolder

/-- The names of a path. -/
def names (path : String) : List String :=
  (Text.pieces (· == '/') path.toList).map String.ofList

/-- Whether a path starts at the root. -/
def isRooted (path : String) : Bool :=
  path.toList.head? == some '/'

/-- The place a path leads to; nothing need stand there yet. -/
def place (fs : Files) (path : String) : Except FileFault (List String) :=
  if path == "" then .error .notExist
  else if path.toList.any (·.toNat == 0) then .error .badName
  else fs.follow (if isRooted path then [] else fs.home) (names path)

/-- Puts an entry at a place. -/
def put (fs : Files) (place : List String) (e : Entry) : Files :=
  { fs with entries := fs.entries.filter (fun x => x.1 != place) ++ [(place, e)] }

/-- What stands directly in a folder, by name. -/
def children (fs : Files) (place : List String) : List (String × Entry) :=
  (fs.entries.filterMap (fun x =>
    match x.1.getLast? with
    | some name => if x.1.dropLast == place then some (name, x.2) else none
    | none => none)).mergeSort (fun a b => a.1 ≤ b.1)

/-! ### Operations -/

/-- The text of a file. -/
def read (fs : Files) (path : String) : Except FileError String :=
  match fs.place path with
  | .error f => .error ⟨"open", path, f⟩
  | .ok p =>
    match fs.entryAt p with
    | none => .error ⟨"open", path, .notExist⟩
    | some .folder => .error ⟨"read", path, .isFolder⟩
    | some (.file text) => .ok text
    | some _ => .ok ""

/-- Why a path cannot be opened for writing. A path that ends in a slash can only lead to a folder,
so a new file cannot have it. -/
def openFault (fs : Files) (path : String) (f : FileFault) : FileFault :=
  let bare := (path.toList.reverse.dropWhile (· == '/')).reverse
  if f = .notExist && bare.length < path.length &&
      (fs.place (String.ofList bare)).toOption.isSome then .isFolder
  else f

/-- Opens a file for writing, which makes it if it is not there, and lets `change` make its new text
out of the old one, which is empty for a new file. Devices take no notice. -/
def reopen (fs : Files) (path : String) (change : String → String) : Except FileError Files :=
  match fs.place path with
  | .error f => .error ⟨"open", path, fs.openFault path f⟩
  | .ok p =>
    match fs.entryAt p with
    | none => .ok (fs.put p (.file (change "")))
    | some (.file text) => .ok (fs.put p (.file (change text)))
    | some .folder => .error ⟨"open", path, .isFolder⟩
    | some _ => .ok fs

/-- Opens a file and writes to it; a full device refuses even an empty text. -/
def edit (fs : Files) (path : String) (change : String → String) : Except FileError Files :=
  match fs.place path with
  | .error _ => fs.reopen path change
  | .ok p =>
    match fs.entryAt p with
    | some .full => .error ⟨"write", path, .noSpace⟩
    | _ => fs.reopen path change

/-- Writes a file, in place of what it held. -/
def write (fs : Files) (path text : String) : Except FileError Files :=
  fs.edit path (fun _ => text)

/-- Adds to the end of a file. -/
def append (fs : Files) (path text : String) : Except FileError Files :=
  fs.edit path (· ++ text)

/-- Makes a file if it is not there. -/
def touch (fs : Files) (path : String) : Except FileError Files :=
  fs.reopen path id

/-- Makes a file, or takes away all that it holds. -/
def create (fs : Files) (path : String) : Except FileError Files :=
  fs.reopen path (fun _ => "")

/-- Removes a file or an empty folder. -/
def remove (fs : Files) (path : String) : Except FileError Files :=
  match fs.place path with
  | .error f => .error ⟨"remove", path, f⟩
  | .ok p =>
    match fs.entryAt p with
    | none => .error ⟨"remove", path, .notExist⟩
    | some .folder =>
      if (fs.children p).isEmpty then
        .ok { fs with entries := fs.entries.filter (fun x => x.1 != p) }
      else .error ⟨"remove", path, .notEmpty⟩
    | some _ => .ok { fs with entries := fs.entries.filter (fun x => x.1 != p) }

/-- What stands in a folder, by name. -/
def list (fs : Files) (path : String) : Except FileError (List (String × Entry)) :=
  match fs.place path with
  | .error f => .error ⟨"open", path, f⟩
  | .ok p =>
    match fs.entryAt p with
    | none => .error ⟨"open", path, .notExist⟩
    | some .folder => .ok (fs.children p)
    | some _ => .error ⟨"open", path, .notFolder⟩

/-- The paths of the folders on the way to a path, and the path itself, shortest first. -/
def stages (path : String) : List String :=
  let rec go : List Char → List Char → List String
    | _, [] => []
    | before, c :: cs =>
      let here := before ++ [c]
      match cs with
      | [] => if c == '/' then [] else [String.ofList here]
      | d :: _ => if d == '/' && c != '/' then String.ofList here :: go here cs else go here cs
  go [] path.toList

/-- Makes one folder, if it is not there yet. -/
def makeFolder (fs : Files) (path : String) : Except FileError Files :=
  match fs.place path with
  | .error f => .error ⟨"mkdir", path, f⟩
  | .ok p =>
    match fs.entryAt p with
    | none => .ok (fs.put p .folder)
    | some .folder => .ok fs
    | some _ => .error ⟨"mkdir", path, .notFolder⟩

/-- Makes a folder and the folders on the way to it. -/
def makeFolders (fs : Files) (path : String) : Except FileError Files :=
  (stages path).foldlM makeFolder fs

/-- The files below the working folder: path and text, by path. -/
def listing (fs : Files) : List (String × String) :=
  (fs.entries.filterMap (fun x =>
    match x.2 with
    | .file text =>
      if fs.home.isPrefixOf x.1 then
        some ("/".intercalate (x.1.drop fs.home.length), text)
      else none
    | _ => none)).mergeSort (fun a b => a.1 ≤ b.1)

/-! ### Paths -/

/-- The names of a path without detours: what `.` and `..` stand for is worked out, where a path
that starts at the root cannot lead above it. -/
def straighten (rooted : Bool) : List String → List String → List String
  | done, [] => done.reverse
  | done, name :: rest =>
    if name == "" || name == "." then straighten rooted done rest
    else if name == ".." then
      match done with
      | [] => straighten rooted (if rooted then [] else [".."]) rest
      | d :: ds => if d == ".." then straighten rooted (".." :: done) rest
        else straighten rooted ds rest
    else straighten rooted (name :: done) rest

/-- The shortest path that leads to the same place. -/
def clean (path : String) : String :=
  let body := "/".intercalate (straighten (isRooted path) [] (names path))
  if isRooted path then "/" ++ body else if body == "" then "." else body

/-- A path to something inside a folder. -/
def join (dir name : String) : String :=
  clean (if dir == "" then name else dir ++ "/" ++ name)

/-- The last name of a path. -/
def baseName (path : String) : String :=
  match (names path).filter (· != "") with
  | [] => if path == "" then "." else "/"
  | ns => ns.getLast?.getD ""

/-- A path from the root that leads to the same place. -/
def absolute (fs : Files) (path : String) : String :=
  if isRooted path then clean path else join ("/" ++ "/".intercalate fs.home) path

/-- The path of the folder in which the last name of a path stands. -/
def folderName (path : String) : String :=
  let upToSlash := (path.toList.reverse.dropWhile (· != '/')).reverse
  clean (String.ofList upToSlash)

end Files

end TapeMachine
