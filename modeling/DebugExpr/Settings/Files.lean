import DebugExpr.Text.Quoted

/-!
# Files

Paths, and the directory that they are looked up in.
-/

namespace DebugExpr

inductive ReadFailure where
  | missing | notDirectory | isDirectory | nameTooLong
  /-- Another reason, with its number and its text. -/
  | other (code : Nat) (text : String)
  deriving DecidableEq

def ReadFailure.message : ReadFailure → String
  | missing => "[Errno 2] No such file or directory"
  | notDirectory => "[Errno 20] Not a directory"
  | isDirectory => "[Errno 21] Is a directory"
  | nameTooLong => "[Errno 36] File name too long"
  | other code text => "[Errno " ++ toString code ++ "] " ++ text

/-- A path: whether it begins at the root, how many slashes show that, and its names. -/
structure Path where
  root : String
  names : List String

namespace Path

/-- The path that a text stands for. Repeated slashes and dots alone have no meaning; two
slashes at the front, and no more, are kept. -/
def ofString (s : String) : Path :=
  let slashes := (s.toList.takeWhile (· == '/')).length
  { root := if slashes = 0 then "" else if slashes = 2 then "//" else "/"
    names := (s.splitOn "/").filter fun name => name != "" && name != "." }

/-- Whether a text can be a path: a zero character would end it. -/
def isUsable (s : String) : Bool :=
  !s.toList.contains '\x00'

/-- The path as a text; the directory itself is a dot. -/
def toString (p : Path) : String :=
  if p.root == "" && p.names.isEmpty then "." else p.root ++ "/".intercalate p.names

end Path

inductive FileEntry where
  | file (bytes : ByteArray)
  | directory

/-- A directory: the entries in it, by their paths. -/
abbrev Directory := List (String × FileEntry)

namespace Directory

/-- The entry at a path of names. The directory itself is at the empty path, and a path that
goes on to another entry is a directory. -/
def find (d : Directory) (names : List String) : Option FileEntry :=
  if names = [] then some .directory
  else
    match d.lookup ("/".intercalate names) with
    | some entry => some entry
    | none =>
      if d.any fun e => names.isPrefixOf (Path.ofString e.1).names then some .directory else none

inductive Place where
  /-- In the directory, with the names that lead there. -/
  | inside (names : List String)
  | outside

/-- The entry at a place: above the directory there are only directories. -/
def entryAt (d : Directory) : Place → Option FileEntry
  | .inside names => d.find names
  | .outside => some .directory

def maxName : Nat := 255

def maxPath : Nat := 4095

/-- The place that a name leads to from a place. Above the directory only the way up is known. -/
def step (d : Directory) (place : Place) (name : String) : Except ReadFailure Place :=
  match d.entryAt place with
  | none => .error .missing
  | some (.file _) => .error .notDirectory
  | some .directory =>
    if maxName < name.utf8ByteSize then .error .nameTooLong
    else
      match place with
      | .outside => if name = ".." then .ok .outside else .error .missing
      | .inside names =>
        if name ≠ ".." then .ok (.inside (names ++ [name]))
        else if names = [] then .ok .outside
        else .ok (.inside names.dropLast)

def read (d : Directory) (path : Path) : Except ReadFailure ByteArray :=
  if maxPath < path.toString.utf8ByteSize then .error .nameTooLong
  else do
    let start := if path.root = "" then .inside [] else .outside
    match d.entryAt (← path.names.foldlM d.step start) with
    | none => .error .missing
    | some .directory => .error .isDirectory
    | some (.file bytes) => .ok bytes

end Directory

end DebugExpr
