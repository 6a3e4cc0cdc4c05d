/-! Paths as texts with slashes between their parts. -/
namespace SourceOutline.Path

/-- The parts between slashes, empty ones included. -/
def parts (path : String) : List String := path.splitOn "/"

/-- The parts that lead somewhere else: neither empty ones nor single dots. -/
def steps (path : String) : List String := (parts path).filter fun part => part != "" && part != "."

/-- The last step, if it names a file. A step upwards does not. -/
def fileName? (path : String) : Option String :=
  match (steps path).getLast? with
  | some name => if name = ".." then none else some name
  | none => none

/-- What follows the last dot of a name. A dot in front of a name starts no extension. -/
def extensionOf (name : String) : Option String :=
  let cs := name.toList.reverse
  let after := cs.takeWhile (· != '.')
  match cs.dropWhile (· != '.') with
  | [] => none
  | [_] => none
  | _ => some (String.ofList after.reverse)

def extension? (path : String) : Option String := (fileName? path).bind extensionOf

def sourceExtensions : List String :=
  ["c", "cc", "cpp", "cxx", "c++", "h", "hh", "hpp", "hxx", "h++", "inl", "ipp"]

/-- Whether a path has an extension of C or C++, in any case. -/
def isSource (path : String) : Bool :=
  (extension? path).any fun e => sourceExtensions.contains (e.map Char.toLower)

/-- The path of an entry of a directory. -/
def join (directory name : String) : String :=
  if directory.isEmpty || directory.endsWith "/" then directory ++ name
  else directory ++ "/" ++ name

end SourceOutline.Path
