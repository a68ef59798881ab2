/-!
# Hosts

A host has folders and files. A path is followed name by name, from the root or from the
current folder. Each name but the last has to be that of a folder. A file is made when it
is opened for writing in a folder that is there, unless the system alone fills that folder.
A folder is not opened as a file.
-/

namespace LightServer.Scenario

inductive Entry where
  | folder
  | file (text : String)
  deriving DecidableEq, Repr

inductive PathFault where
  | zeroCharacter
  | missing
  | notFolder
  | isFolder
  | tooLong
  deriving DecidableEq, Repr

def PathFault.message : PathFault → String
  | zeroCharacter => "file name contained an unexpected NUL byte"
  | missing => "No such file or directory (os error 2)"
  | notFolder => "Not a directory (os error 20)"
  | isFolder => "Is a directory (os error 21)"
  | tooLong => "File name too long (os error 36)"

/-- The entries of a host below its root, by the names on their paths, and the folder
where paths without a slash at their beginning start. -/
structure Host where
  entries : List (List String × Entry)
  current : List String
  deriving DecidableEq, Repr

namespace Host

def usualFolders : List (List String) :=
  [["bin"], ["dev"], ["etc"], ["home"], ["lib"], ["opt"], ["proc"], ["root"], ["run"], ["sbin"],
    ["sys"], ["tmp"], ["usr"], ["usr", "bin"], ["usr", "lib"], ["usr", "local"], ["var"],
    ["var", "log"], ["var", "tmp"]]

def systemFolders : List (List String) := [["proc"]]

/-- The files of every host, none of which says anything here. -/
def usualFiles : List (List String) :=
  [["dev", "null"], ["dev", "full"], ["etc", "passwd"], ["etc", "hosts"], ["etc", "hostname"]]

def withFiles (files : List (String × String)) : Host where
  entries := usualFolders.map (·, .folder) ++ usualFiles.map (·, .file "") ++
    files.map fun (name, text) => (["home", name], .file text)
  current := ["home"]

def entry? (h : Host) (names : List String) : Option Entry :=
  if names.isEmpty then some .folder else h.entries.lookup names

def maxName : Nat := 255

def pathLimit : Nat := 4096

def staysIn (name : String) : Bool := name.isEmpty || name = "."

def enter (h : Host) : List String → List String → Except PathFault (List String)
  | here, names =>
      match h.entry? here, names with
      | none, _ => .error .missing
      | some (.file _), _ => .error .notFolder
      | some .folder, [] => .ok here
      | some .folder, name :: rest =>
          if staysIn name then h.enter here rest
          else if name = ".." then h.enter here.dropLast rest
          else if maxName < name.utf8ByteSize then .error .tooLong
          else h.enter (here ++ [name]) rest

/-- The folder that all names but the last lead to, and what the last one leads to in it.
There may be nothing. -/
def lookUp (h : Host) (start : List String) (names : List String) :
    Except PathFault (List String × Option Entry) := do
  let here ← h.enter start names.dropLast
  match names.getLast? with
  | none => return (here, some .folder)
  | some name =>
      if staysIn name || name = ".." then return (here, some .folder)
      else if maxName < name.utf8ByteSize then throw .tooLong
      else return (here, h.entry? (here ++ [name]))

def start (h : Host) (path : String) : List String :=
  if path.startsWith "/" then [] else h.current

def textFault? (path : String) : Option PathFault :=
  if path.toList.any (·.toNat = 0) then some .zeroCharacter
  else if path.isEmpty then some .missing
  else if pathLimit ≤ path.utf8ByteSize then some .tooLong
  else none

/-- What keeps a path from being opened for writing. With a slash at its end it is the
path of a folder. -/
def openFault? (path : String) (h : Host) : Option PathFault :=
  (textFault? path).or <|
    let names := path.splitOn "/"
    let closed := (names.reverse.dropWhile String.isEmpty).reverse
    match h.lookUp (h.start path) closed with
    | .error e => some e
    | .ok (_, some .folder) => some .isFolder
    | .ok (here, entry) =>
        if closed.length < names.length then some .isFolder
        else if entry.isNone && systemFolders.contains here then some .missing
        else none

def read (path : String) (h : Host) : Except PathFault String :=
  match textFault? path with
  | some e => .error e
  | none =>
      match h.lookUp (h.start path) (path.splitOn "/") with
      | .error e => .error e
      | .ok (_, none) => .error .missing
      | .ok (_, some .folder) => .error .isFolder
      | .ok (_, some (.file text)) => .ok text

end Host

end LightServer.Scenario
