import SourceOutline.Files.Path
import SourceOutline.NameTable

/-! Files and directories. -/
namespace SourceOutline

/-- The bytes of a file. A file of zero bytes alone is kept as its length. -/
inductive Content
  | bytes (data : ByteArray)
  | zeros (count : Nat)

namespace Content

def size : Content → Nat
  | bytes data => data.size
  | zeros count => count

/-- The text of a file that holds valid UTF-8. -/
def text? : Content → Option String
  | bytes data => String.fromUTF8? data
  | zeros count => some (String.ofList (List.replicate count '\x00'))

end Content

/-- Why a file cannot be had. -/
inductive SystemError
  | notFound | notDirectory | isDirectory | nameTooLong | nulInPath | invalidText
  | other (reason : String)
  deriving DecidableEq, Repr

def SystemError.message : SystemError → String
  | notFound => "No such file or directory (os error 2)"
  | notDirectory => "Not a directory (os error 20)"
  | isDirectory => "Is a directory (os error 21)"
  | nameTooLong => "File name too long (os error 36)"
  | nulInPath => "file name contained an unexpected NUL byte"
  | invalidText => "stream did not contain valid UTF-8"
  | other reason => reason

/-- Entries of a directory stand in the order of their names. -/
inductive Node
  | file (content : Content)
  | directory (entries : List (String × Node))

abbrev Directory := List (String × Node)

/-- What is found at each path. -/
abbrev Disk := String → Except SystemError Node

namespace Directory

/-- The most bytes of a name, and of a path. -/
def nameLimit : Nat := 255

def pathLimit : Nat := 4095

/-- Follows the parts of a path through directories, the innermost first. Outside of the outermost
one there is nothing. -/
def follow (around : List Directory) : List String → Except SystemError Node
  | [] => .ok (.directory (around.headD []))
  | part :: parts =>
    if part = "" || part = "." then follow around parts
    else if part = ".." then follow around.tail parts
    else if part.utf8ByteSize > nameLimit then .error .nameTooLong
    else
      match NameTable.lookup part (around.headD []) with
      | none => .error .notFound
      | some (.directory entries) => follow (entries :: around) parts
      | some (.file content) => if parts.isEmpty then .ok (.file content) else .error .notDirectory

/-- What is wrong with a path on every disk. -/
def fault? (path : String) : Option SystemError :=
  if path.toList.contains '\x00' then some .nulInPath
  else if path.isEmpty then some .notFound
  else if path.utf8ByteSize > pathLimit then some .nameTooLong
  else none

/-- The disk whose paths start in a directory. -/
def disk (d : Directory) : Disk := fun path =>
  match fault? path with
  | some e => .error e
  | none => follow [d] (Path.parts path)

/-- Puts a node at a path, making the directories on the way. -/
def put (node : Node) (entries : Directory) : List String → Directory
  | [] => entries
  | [name] => NameTable.insertEntry name node entries
  | name :: parts =>
    let inner := match NameTable.lookup name entries with
      | some (.directory inner) => inner
      | _ => []
    NameTable.insertEntry name (.directory (put node inner parts)) entries

def putFile (d : Directory) (path : String) (content : Content) : Directory :=
  put (.file content) d (Path.steps path)

/-- Makes a directory unless it is there. -/
def putDirectory (d : Directory) (path : String) : Directory :=
  match disk d path with
  | .ok _ => d
  | .error _ => put (.directory []) d (Path.steps path)

/-- The sources among the files of a directory itself. -/
def sources (path : String) (entries : Directory) : List String :=
  entries.filterMap fun entry =>
    match entry.2 with
    | .file _ =>
      let inner := Path.join path entry.1
      if Path.isSource inner then some inner else none
    | .directory _ => none

end Directory

namespace Node

mutual

/-- The sources below a node at `path`. -/
def sources (path : String) : Node → List String
  | .file _ => if Path.isSource path then [path] else []
  | .directory entries => sourcesAmong path entries

/-- The sources below the entries of a directory at `path`. -/
def sourcesAmong (path : String) : List (String × Node) → List String
  | [] => []
  | (name, node) :: rest => sources (Path.join path name) node ++ sourcesAmong path rest

end

end Node

/-- Files stand for themselves, whether they exist or not. Directories stand for the sources in
them, and below them where `recursive` says so. -/
def Disk.collect (disk : Disk) (recursive : Bool) (paths : List String) : List String :=
  paths.flatMap fun path =>
    match disk path with
    | .ok (.directory entries) =>
      if recursive then Node.sourcesAmong path entries else Directory.sources path entries
    | _ => [path]

end SourceOutline
