import TapeMachine.Files
import TapeMachine.Store.Lock
import TapeMachine.Table.Canonical
import TapeMachine.Table.Json

/-!
# Stores

A store keeps tables under names. There are three kinds: a shelf in memory, a folder of canonical
texts, and a key server that holds JSON texts. Names are bytes, but a tree of files has texts for
names, and refuses a name that is none. What is loaded is a copy of what was saved, as far as
the written form tells tables apart, and it can be changed.
-/

namespace TapeMachine

/-- Why a store fails. -/
inductive StoreError where
  | notFound
  | badName (name : String)
  /-- An operation on files failed while something was attempted. -/
  | files (attempt : String) (e : FileError)
  | undecodable (path : String) (e : Canonical.Error)
  | unreadable (path : String) (e : FileError)
  /-- A command of the key server failed while something was attempted. -/
  | server (attempt : String) (e : Redis.Error)
  /-- What the server holds under a name is not the JSON text of a table. -/
  | unmarshal (name : Bytes) (e : Table.ReadError)
  | unknownKind (kind : String)

/-- The wording of each error. -/
def StoreError.message : StoreError → String
  | .notFound => "table not found"
  | .badName name => "invalid table name " ++ Text.quoted name
  | .files attempt e => attempt ++ ": " ++ e.message
  | .undecodable path e => "failed to decode " ++ path ++ ": " ++ e.message
  | .unreadable path e =>
    "failed to decode " ++ path ++ ": failed to read transitions: " ++ e.message
  | .server attempt e => attempt ++ ": " ++ e.message
  | .unmarshal name .json => "failed to unmarshal table " ++ Text.shown name
  | .unmarshal name (.refused e) =>
    "failed to unmarshal table " ++ Text.shown name ++ ": " ++ e.message
  | .unknownKind kind => "unknown store kind " ++ Text.quoted kind

/-! ### Shelves -/

/-- Things in memory, under their names. -/
structure Shelf (α : Type := Table) where
  items : List (Bytes × α) := []

namespace Shelf

variable {α : Type}

/-- Puts something under a name, in place of what was there. -/
def save (s : Shelf α) (name : Bytes) (x : α) : Shelf α :=
  ⟨s.items.filter (fun y => y.1 != name) ++ [(name, x)]⟩

/-- What is under a name. -/
def load (s : Shelf α) (name : Bytes) : Option α :=
  s.items.lookup name

/-- Takes away what is under a name. -/
def delete (s : Shelf α) (name : Bytes) : Shelf α :=
  ⟨s.items.filter (fun x => x.1 != name)⟩

/-- The names in order. -/
def names (s : Shelf α) : List Bytes :=
  (s.items.map (·.1)).mergeSort (· ≤ ·)

end Shelf

/-! ### Folders -/

namespace Folder

/-- How the names of table files end. -/
def extension : String := ".tm"

/-- How the names of files that are being written start. -/
def temporary : String := "tmp-"

/-- Whether a name can be the name of a file. -/
def isName (name : String) : Bool :=
  name != "" && name != "." && name != ".." && !name.toList.any (fun c => c == '/' || c == '\\')

/-- The path of the file for a name. -/
def path (dir name : String) : Except StoreError String :=
  if isName name then .ok (Files.join dir (name ++ extension)) else .error (.badName name)

/-- The text of a table file. -/
def text (t : Table) : String :=
  Canonical.header t ++ Canonical.encode t

/-- The path of a file that is being written, where `mark` stands for the digits that are made up to
keep it apart from others. -/
def temporaryPath (dir name mark : String) : String :=
  dir ++ (if dir.toList.getLast? == some '/' then "" else "/") ++
    temporary ++ name ++ "-" ++ mark ++ extension

/-- Digits as they are made up for a temporary file. -/
def sampleMark : String := "0000000000"

/-- Writes the file for a name. The text is first written to a temporary file, which then takes the
place of the file; a folder in its place stays. -/
def save (fs : Files) (dir name : String) (t : Table) : Files × Option StoreError :=
  match path dir name with
  | .error e => (fs, some e)
  | .ok dest =>
    match fs.makeFolders dir with
    | .error e => (fs, some (.files "failed to ensure table directory" e))
    | .ok fs =>
      let shown := temporaryPath dir name "*"
      match fs.place (temporaryPath dir name sampleMark) with
      | .error f => (fs, some (.files "failed to create temp file" ⟨"open", shown, f⟩))
      | .ok _ =>
        match fs.write dest (text t) with
        | .ok fs => (fs, none)
        | .error _ =>
          (fs, some (.files ("failed to rename temp file to " ++ dest)
            ⟨"rename", shown ++ " " ++ dest, .taken⟩))

/-- Reads the file for a name. -/
def load (fs : Files) (dir name : String) : Except StoreError Table :=
  match path dir name with
  | .error e => .error e
  | .ok file =>
    match fs.read file with
    | .ok text =>
      match Canonical.decode text with
      | .ok t => .ok t
      | .error e => .error (.undecodable file e)
    | .error e =>
      if e.action == "read" then .error (.unreadable file e)
      else if e.fault = .notExist then .error .notFound
      else .error (.files "failed to open table file" e)

/-- Removes the file for a name, if there is one. -/
def delete (fs : Files) (dir name : String) : Files × Option StoreError :=
  match path dir name with
  | .error e => (fs, some e)
  | .ok file =>
    match fs.remove file with
    | .ok fs => (fs, none)
    | .error e =>
      (fs, if e.fault = .notExist then none else some (.files "failed to delete table file" e))

/-- The name that a file of the folder stands for. -/
def nameOf? (file : String) (e : Entry) : Option String :=
  let cs := file.toList
  if e = .folder || !extension.toList.isSuffixOf cs || temporary.toList.isPrefixOf cs then none
  else some (String.ofList (cs.take (cs.length - extension.length)))

/-- What comes of a file whose name would be no text. -/
def noText (attempt action dir : String) (name : Bytes) : StoreError :=
  .files attempt ⟨action, Files.join dir (Text.shown name ++ extension), .badName⟩

/-- The names of all table files, in the order of the files. -/
def list (fs : Files) (dir : String) : Except StoreError (List String) :=
  match fs.list dir with
  | .ok es => .ok (es.filterMap (fun e => nameOf? e.1 e.2))
  | .error e =>
    if e.fault = .notExist then .ok [] else .error (.files "failed to list tables" e)

end Folder

/-! ### Key servers -/

/-- How tables are kept on a key server: how its keys start, and how many seconds a table lives,
where zero means for ever. -/
structure Shared where
  keyStart : Bytes := []
  life : Nat := 0

namespace Shared

open Redis

variable {σ : Type} [KeyServer σ]

/-- The key of a table. -/
def tableKey (k : Shared) (name : Bytes) : Bytes := k.keyStart ++ ("table:" : Bytes) ++ name

/-- The key of the ranking of all names. -/
def indexKey (k : Shared) : Bytes := k.keyStart ++ ("index" : Bytes)

/-- The key of a lock. -/
def lockKey (k : Shared) (key : Bytes) : Bytes := k.keyStart ++ ("lock:" : Bytes) ++ key

/-- The score of a name that never expires: the first second of the year 2100. -/
def farFuture : Int := 4102444800

/-- The score of a name that is saved at a time: the second at which its life is over. Times are
seconds on a clock that starts at zero. -/
def score (k : Shared) (now : Int) : Int := if k.life = 0 then farFuture else now + k.life

/-- Saves the JSON text of a table and notes its name. The text is saved even if the note fails. -/
def saveText (k : Shared) (s : σ) (caller : Caller) (name : Bytes) (text : String)
    (now : Int := 0) : σ × Option StoreError :=
  let (s, failure) := transact s caller
    [(k.tableKey name, .set text (term? k.life)), (k.indexKey, .rank name (k.score now))]
  (s, failure.map (.server "failed to save to redis"))

/-- Saves a table. -/
def save (k : Shared) (s : σ) (caller : Caller) (name : Bytes) (t : Table)
    (now : Int := 0) : σ × Option StoreError :=
  k.saveText s caller name t.toJson.render now

/-- Loads a table. -/
def load (k : Shared) (s : σ) (caller : Caller) (name : Bytes) : Except StoreError Table :=
  match (KeyServer.run s caller (k.tableKey name) .get).2 with
  | .error e => .error (.server "failed to get from redis" e)
  | .ok (.text text) =>
    match Table.empty.readJson text with
    | (t, none) => .ok t
    | (_, some e) => .error (.unmarshal name e)
  | .ok _ => .error .notFound

/-- Deletes a table and the note of its name. -/
def delete (k : Shared) (s : σ) (caller : Caller) (name : Bytes) : σ × Option StoreError :=
  let (s, failure) :=
    transact s caller [(k.tableKey name, .delete), (k.indexKey, .unrank name)]
  (s, failure.map (.server "failed to delete from redis"))

/-- The names that have been noted and have not expired by now. -/
def list (k : Shared) (s : σ) (caller : Caller) (now : Int := 0) :
    σ × Except StoreError (List Bytes) :=
  match KeyServer.run s caller k.indexKey (.prune now) with
  | (s, .error e) => (s, .error (.server "failed to prune expired tables" e))
  | (s, .ok _) =>
    match KeyServer.run s caller k.indexKey .members with
    | (s, .error e) => (s, .error (.server "failed to list tables" e))
    | (s, .ok (.members names)) => (s, .ok names)
    | (s, .ok _) => (s, .ok [])

end Shared

/-! ### Stores of any kind -/

/-- A store of one of the three kinds, with all that it holds. Its key server is of the kind `σ`. -/
inductive Store (σ : Type := Redis.Server) where
  | memory (shelf : Shelf)
  | folder (dir : String) (files : Files)
  | redis (keys : Shared) (server : σ)

section

variable {σ : Type} [Redis.KeyServer σ]

namespace Store

/-- Saves a table under a name. -/
def save (s : Store σ) (caller : Caller) (name : Bytes) (t : Table) (now : Int := 0) :
    Store σ × Option StoreError :=
  match s with
  | .memory shelf => (.memory (shelf.save name t.thaw), none)
  | .folder dir fs =>
    match Text.text? name with
    | some name =>
      let (fs, e) := Folder.save fs dir name t
      (.folder dir fs, e)
    | none => (s, some (Folder.noText "failed to create temp file" "open" dir name))
  | .redis keys server =>
    let (server, e) := keys.save server caller name t now
    (.redis keys server, e)

/-- Loads the table under a name. -/
def load (s : Store σ) (caller : Caller) (name : Bytes) : Except StoreError Table :=
  match s with
  | .memory shelf =>
    match shelf.load name with
    | some t => .ok t
    | none => .error .notFound
  | .folder dir fs =>
    match Text.text? name with
    | some name => Folder.load fs dir name
    | none => .error (Folder.noText "failed to open table file" "open" dir name)
  | .redis keys server => keys.load server caller name

/-- Deletes what is under a name; a name that is not there is no error. -/
def delete (s : Store σ) (caller : Caller) (name : Bytes) : Store σ × Option StoreError :=
  match s with
  | .memory shelf => (.memory (shelf.delete name), none)
  | .folder dir fs =>
    match Text.text? name with
    | some name =>
      let (fs, e) := Folder.delete fs dir name
      (.folder dir fs, e)
    | none => (s, some (Folder.noText "failed to delete table file" "remove" dir name))
  | .redis keys server =>
    let (server, e) := keys.delete server caller name
    (.redis keys server, e)

/-- The names of all tables. -/
def list (s : Store σ) (caller : Caller) (now : Int := 0) :
    Store σ × Except StoreError (List Bytes) :=
  match s with
  | .memory shelf => (s, .ok shelf.names)
  | .folder dir fs => (s, (Folder.list fs dir).map (·.map Text.bytes))
  | .redis keys server =>
    let (server, r) := keys.list server caller now
    (.redis keys server, r)

end Store

/-! ### Backends -/

/-- A store and the locks on its names. The locks of a key server are kept on the server. -/
structure Backend (σ : Type := Redis.Server) where
  store : Store σ
  locks : Locks := {}

namespace Backend

/-- A backend in memory. -/
def memory {σ : Type} : Backend σ := { store := .memory {} }

/-- Asks for the lock on a key, for at most so many seconds where a server keeps the lock. A
caller who would wait for ever gets no answer. -/
def lock (b : Backend σ) (caller : Caller) (key : Bytes) (life : Nat) :
    Option (Except LockError (Backend σ × Grant)) :=
  match b.store with
  | .redis keys server =>
    let token := b.locks.next
    (Redis.lock server caller (keys.lockKey key) token life).map (fun r =>
      r.map (fun server =>
        ({ store := .redis keys server, locks := { b.locks with next := token + 1 } },
          ⟨key, token⟩)))
  | _ => (b.locks.lock caller key).map (fun r => r.map (fun x => ({ b with locks := x.1 }, x.2)))

/-- Gives a grant back. -/
def unlock (b : Backend σ) (caller : Caller) (g : Grant) : Backend σ × Option Redis.Error :=
  match b.store with
  | .redis keys server =>
    match Redis.unlock server caller (keys.lockKey g.key) g.token with
    | .ok server => ({ b with store := .redis keys server }, none)
    | .error e => (b, some e)
  | _ => ({ b with locks := b.locks.unlock g }, none)

end Backend

end

end TapeMachine
