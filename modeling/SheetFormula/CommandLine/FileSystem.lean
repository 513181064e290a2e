/-! The files that a run sees. A file is known by the names that lead to it from the root of the system, and
a run works in one of the directories, where the paths start that do not begin with a slash. A path is
followed part by part, and every part but the last must be a directory. -/

namespace SheetFormula
namespace CommandLine

/-! ### Paths -/

/-- The parts of a path, which are separated by slashes. -/
def parts (path : String) : List String := (path.toList.splitOn '/').map String.ofList

/-- Whether a path is the name of the standard input, or becomes it when the parts that mean nothing
are left out. -/
def isStandardInput (path : String) : Bool :=
  match parts path with
  | first :: rest => first == "-" && rest.all fun p => p == "" || p == "."
  | [] => false

/-- The parts of the directory that a path ending in a slash is in, if the path ends in one. -/
def parentOfSlashed? (path : String) : Option (List String) :=
  match (parts path).reverse with
  | "" :: rest => some ((rest.dropWhile (· == "")).drop 1).reverse
  | _ => none

/-- The greatest number of bytes of a file's name. -/
def nameLimit : Nat := 255

/-- The greatest number of bytes of a path. -/
def pathLimit : Nat := 4095

/-! ### Devices -/

/-- A file of the system that keeps nothing. -/
inductive Device where
  /-- Reads as empty and takes all that is written. -/
  | null
  /-- Reads without end and has no room for anything. -/
  | full
  | stdin | stdout | stderr
  deriving DecidableEq, Inhabited

/-- The devices under their names from the root of the system. -/
def Device.table : List (List String × Device) := [
  (["dev", "null"], null), (["dev", "full"], full),
  (["dev", "stdin"], stdin), (["dev", "stdout"], stdout), (["dev", "stderr"], stderr),
  (["dev", "fd", "0"], stdin), (["dev", "fd", "1"], stdout), (["dev", "fd", "2"], stderr),
  (["proc", "self", "fd", "0"], stdin), (["proc", "self", "fd", "1"], stdout),
  (["proc", "self", "fd", "2"], stderr)]

/-- The device of a name from the root of the system. -/
def Device.ofNames? (names : List String) : Option Device := Device.table.lookup names

/-! ### Files -/

/-- Why a file cannot be used. -/
inductive FileError where
  | notFound | notDirectory | isDirectory | nameTooLong | noSpace
  | notText
  /-- Anything else, in the words of the system. -/
  | other (message : String)
  deriving DecidableEq, Inhabited

def FileError.message : FileError → String
  | notFound => "No such file or directory (os error 2)"
  | notDirectory => "Not a directory (os error 20)"
  | isDirectory => "Is a directory (os error 21)"
  | nameTooLong => "File name too long (os error 36)"
  | noSpace => "No space left on device (os error 28)"
  | notText => "stream did not contain valid UTF-8"
  | other message => message

/-- Files with their contents and directories, all by their names from the root. -/
structure FileSystem where
  files : List (List String × ByteArray)
  /-- Directories that may have nothing in them. -/
  directories : List (List String)
  /-- The directory that a run works in. -/
  working : List String

namespace FileSystem

def contents? (fs : FileSystem) (names : List String) : Option ByteArray := fs.files.lookup names

/-- Whether the names lead to a directory. What a file or a device is in is one, and so is what a directory
is in. -/
def isDirectory (fs : FileSystem) (names : List String) : Bool :=
  (fs.working :: fs.directories).any names.isPrefixOf ||
    (Device.table.map (·.1) ++ fs.files.map (·.1)).any fun file =>
      names.isPrefixOf file && names != file

inductive Entry where
  | directory
  | file (contents : ByteArray)
  | device (d : Device)

def entryAt? (fs : FileSystem) (names : List String) : Option Entry :=
  if fs.isDirectory names then some .directory
  else match Device.ofNames? names with
    | some d => some (.device d)
    | none => (fs.contents? names).map .file

/-- Follows the parts of a path from the place that some names lead to. The root is above itself. -/
def follow (fs : FileSystem) : List String → List String → Except FileError (List String)
  | names, [] => .ok names
  | names, part :: rest =>
    match fs.entryAt? names with
    | some .directory =>
      if part = "" ∨ part = "." then fs.follow names rest
      else if part = ".." then fs.follow names.dropLast rest
      else if nameLimit < part.utf8ByteSize then .error .nameTooLong
      else fs.follow (names ++ [part]) rest
    | some _ => .error .notDirectory
    | none => .error .notFound

/-- Where the parts of a path lead. The first part is empty if the path begins with a slash. -/
def resolve (fs : FileSystem) : List String → Except FileError (List String)
  | "" :: rest => fs.follow [] rest
  | ps => fs.follow fs.working ps

/-- A path that is too long leads nowhere, whatever its parts are. -/
def checkLength (path : String) : Except FileError Unit :=
  if pathLimit < path.utf8ByteSize then .error .nameTooLong else .ok ()

def read (fs : FileSystem) (stdin : ByteArray) (path : String) : Except FileError ByteArray := do
  checkLength path
  match fs.entryAt? (← fs.resolve (parts path)) with
  | some (.file contents) => .ok contents
  | some (.device .stdin) => .ok stdin
  | some (.device .full) => .error (.other "out of memory")
  | some (.device _) => .ok .empty
  | some .directory => .error .isDirectory
  | none => .error .notFound

inductive Target where
  /-- The file of these names, which is made or emptied first. -/
  | file (names : List String)
  | device (d : Device)
  deriving DecidableEq, Inhabited

/-- Where writing to a path goes. A path that ends in a slash names a directory, whether there is one or
not. -/
def target (fs : FileSystem) (path : String) : Except FileError Target := do
  checkLength path
  match parentOfSlashed? path with
  | some parent =>
    let _ ← fs.resolve (parent ++ ["."])
    .error .isDirectory
  | none =>
    let names ← fs.resolve (parts path)
    match fs.entryAt? names with
    | some .directory => .error .isDirectory
    | some (.device d) => .ok (.device d)
    | _ => .ok (.file names)

/-- The files with one made or replaced. -/
def put (fs : FileSystem) (names : List String) (contents : ByteArray) : FileSystem :=
  { fs with files := (names, contents) :: fs.files.filter (·.1 != names) }

/-- The files after a target got new contents. -/
def store (fs : FileSystem) (target : Target) (contents : ByteArray) : FileSystem :=
  match target with
  | .file names => fs.put names contents
  | .device _ => fs

@[simp] theorem contents?_put_self (fs : FileSystem) (names : List String) (contents : ByteArray) :
    (fs.put names contents).contents? names = some contents := by
  simp [put, contents?]

theorem contents?_put_of_ne (fs : FileSystem) {names other : List String} (contents : ByteArray)
    (h : other ≠ names) : (fs.put names contents).contents? other = fs.contents? other := by
  simp only [put, contents?, List.lookup_cons, beq_false_of_ne h]
  induction fs.files with
  | nil => rfl
  | cons f rest ih =>
    rw [List.filter_cons, List.lookup_cons]
    by_cases hf : f.1 = names
    · rw [if_neg (by simp [hf]), ih, hf, beq_false_of_ne h]
    · rw [if_pos (bne_iff_ne.2 hf), List.lookup_cons, ih]

end FileSystem
end CommandLine
end SheetFormula
