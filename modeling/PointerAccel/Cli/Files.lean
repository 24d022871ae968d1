/-!
# The working directory

The program runs in a directory that holds the files it is given and nothing else: no
subdirectories, and nothing known about the directories around it. A path is looked up one
component at a time, as the system does:

* an empty component (from `//` or a trailing `/`) and `.` stay where they are;
* `..` goes up; above the working directory nothing is known, so every name there is
  missing;
* a name in the working directory is one of its files, or missing;
* any component after a file, `.` and a trailing `/` included, fails as `Not a directory`.

A path that ends on a directory cannot be read as a file: `Is a directory`.

The extension of a path is the part of its last name after the last dot, where the last
name ignores a trailing `/` and `.`; a name of only `..`, or one whose only dot is its
first character, has none.
-/

namespace PointerAccel.Cli

/-- A failure of the system to read a path. -/
inductive OsError where
  | notFound
  | isDirectory
  | notDirectory
  /-- Any other failure, with the system's message. -/
  | other (message : String)
  deriving DecidableEq

/-- The system's message for a failure. -/
def OsError.message : OsError → String
  | .notFound => "No such file or directory (os error 2)"
  | .isDirectory => "Is a directory (os error 21)"
  | .notDirectory => "Not a directory (os error 20)"
  | .other message => message

/-- The files of the working directory: names and contents. -/
structure Workspace where
  files : List (String × String)

/-- Where a lookup stands after some components of a path. -/
inductive Place where
  /-- The working directory. -/
  | workDir
  /-- A directory whose contents are unknown: above the working directory, or the root. -/
  | elsewhere
  /-- A file of the working directory. -/
  | file (content : String)

/-- Go through one component of a path. -/
def Workspace.step (ws : Workspace) (p : Place) (part : String) : Except OsError Place :=
  match p with
  | .file _ => .error .notDirectory
  | .workDir =>
    if part == "" || part == "." then .ok .workDir
    else if part == ".." then .ok .elsewhere
    else match ws.files.find? (·.1 == part) with
      | some (_, content) => .ok (.file content)
      | none => .error .notFound
  | .elsewhere =>
    if part == "" || part == "." || part == ".." then .ok .elsewhere
    else .error .notFound

/-- Go through the components of a path. -/
def Workspace.walk (ws : Workspace) : Place → List String → Except OsError Place
  | p, [] => .ok p
  | p, part :: rest => match ws.step p part with
    | .ok q => ws.walk q rest
    | .error e => .error e

/-- Read a file by its path. -/
def Workspace.read (ws : Workspace) (path : String) : Except OsError String :=
  let (start, parts) := match path.splitOn "/" with
    | "" :: rest => if path.isEmpty then (Place.workDir, []) else (Place.elsewhere, rest)
    | parts => (Place.workDir, parts)
  match ws.walk start parts with
  | .ok (.file content) => .ok content
  | .ok _ => .error (if path.isEmpty then .notFound else .isDirectory)
  | .error e => .error e

/-- The last name of a path, ignoring empty components and `.`; none for `..`. -/
def fileName? (path : String) : Option String :=
  match ((path.splitOn "/").filter fun s => s != "" && s != ".").getLast? with
  | some ".." => none
  | some n => some n
  | none => none

/-- The extension of a path: what follows the last dot of its last name. -/
def extension? (path : String) : Option String :=
  (fileName? path).bind fun name =>
    match name.toList.reverse.span (· != '.') with
    | (_, []) => none
    | (_, ['.']) => none
    | (after, _) => some (String.ofList after.reverse)

end PointerAccel.Cli
