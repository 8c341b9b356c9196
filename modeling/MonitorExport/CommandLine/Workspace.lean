import MonitorExport.CommandLine.Run

/-!
Files in memory, on which commands run as they do on a disk. Kept are directories, the contents of
files, the working directory and the environment, and what was written to the outputs; there are no
permissions, no links and no servers.
-/

namespace MonitorExport.CommandLine

/-- A place in a workspace: the names that lead to it. -/
abbrev Place := List String

/-- Files in memory, and the state of a program that runs on them. -/
structure Workspace where
  /-- The path under which the workspace is shown. -/
  home : String
  directories : List Place
  files : List (Place × String)
  current : Place
  environment : List (String × String)
  output : String
  errorOutput : String

namespace Workspace

/-- The places above a place, from the top, and perhaps the place itself. -/
def placesTo (place : Place) : List Place :=
  (List.range (place.length + 1)).map fun n => place.take n

def namesIn (path : String) : List String :=
  (Text.segments (· = '/') path).filter (· ≠ ".")

/-- A workspace with the given files and working directory, in which nothing was written yet. -/
def ofFiles (home : String) (files : List (String × String)) (current : String)
    (environment : List (String × String)) : Workspace :=
  let files := files.map fun (path, contents) => (namesIn path, contents)
  let current := namesIn current
  { home, files, current, environment
    directories := placesTo current ++ files.flatMap fun file => placesTo file.1.dropLast
    output := ""
    errorOutput := "" }

def isDirectory (w : Workspace) (place : Place) : Bool :=
  place.isEmpty || w.directories.contains place

def contents? (w : Workspace) (place : Place) : Option String :=
  w.files.lookup place

/-- Goes from a directory to another one in it or above it. -/
def enter (w : Workspace) (place : Place) (name : String) : Except FileFault Place :=
  if name = ".." then
    if place.isEmpty then .error .missing else .ok place.dropLast
  else
    let inner := place ++ [name]
    if w.isDirectory inner then .ok inner
    else if (w.contents? inner).isSome then .error .notDirectory
    else .error .missing

/-- Where a path starts, and the names in it. Paths that lead out of the workspace lead nowhere. -/
def startOf (w : Workspace) (path : String) : Except FileFault (Place × List String) :=
  if path = w.home ∨ path.startsWith (w.home ++ "/") then .ok ([], namesIn (path.drop w.home.length).toString)
  else if path.startsWith "/" then .error .missing
  else .ok (w.current, namesIn path)

/-- The place that a path leads to. There may be nothing at it, but there is a directory above it. -/
def locate (w : Workspace) (path : String) : Except FileFault Place := do
  let (start, names) ← w.startOf path
  match names.getLast? with
  | none => return start
  | some last =>
    let above ← names.dropLast.foldlM w.enter start
    if last = ".." then w.enter above last else return above ++ [last]

def asksDirectory (path : String) : Bool :=
  path.endsWith "/"

/-- Reads a file. -/
def read (w : Workspace) (path : String) : Except FileFault String := do
  let place ← w.locate path
  if w.isDirectory place then throw .isDirectory else
  match w.contents? place with
  | some contents => if asksDirectory path then throw .notDirectory else return contents
  | none => throw .missing

/-- Whether there is a file or a directory. -/
def has (w : Workspace) (path : String) : Bool :=
  match w.locate path with
  | .ok place => w.isDirectory place || (w.contents? place).isSome
  | .error _ => false

/-- The files with one of them replaced or added. -/
def setFile (place : Place) (contents : String) : List (Place × String) → List (Place × String)
  | [] => [(place, contents)]
  | file :: rest =>
    if file.1 = place then (place, contents) :: rest else file :: setFile place contents rest

/-- Writes a file. -/
def write (w : Workspace) (path contents : String) : Except FileFault Workspace := do
  let place ← w.locate path
  if w.isDirectory place then throw .isDirectory
  else if asksDirectory path then
    throw (if (w.contents? place).isSome then .notDirectory else .isDirectory)
  else return { w with files := setFile place contents w.files }

/-- Goes from a directory to another one in it, which is made if there is none. -/
def enterNew (state : Workspace × Place) (name : String) : Except FileFault (Workspace × Place) :=
  let (w, place) := state
  match w.enter place name with
  | .ok inner => .ok (w, inner)
  | .error .missing =>
    let inner := place ++ [name]
    .ok ({ w with directories := inner :: w.directories }, inner)
  | .error fault => .error fault

/-- Makes a directory and those above it. -/
def makeDirectories (w : Workspace) (path : String) : Except FileFault Workspace := do
  let (start, names) ← w.startOf path
  match names.getLast? with
  | none => return w
  | some last =>
    let above ← names.dropLast.foldlM enterNew (w, start)
    match enterNew above last with
    | .ok (w, _) => return w
    | .error .notDirectory => throw .occupied
    | .error fault => throw fault

def workingDirectory (w : Workspace) : String :=
  "/".intercalate (w.home :: w.current)

/-- A step that changes the workspace, unless it fails. -/
def attempt (change : Workspace → Except FileFault Workspace) : StateM Workspace (Except String Unit) :=
  fun w =>
    match change w with
    | .ok w => (.ok (), w)
    | .error fault => (.error fault.message, w)

/-- The shell of a workspace at a time. -/
def shell (seconds : Int) (nanosecond : Nat) : Shell (StateM Workspace) where
  lookupVariable name := fun w => (w.environment.lookup name, w)
  workingDirectory := fun w => (w.workingDirectory, w)
  isTerminal := pure false
  hasFile path := fun w => (w.has path, w)
  readFile path := fun w => ((w.read path).mapError FileFault.message, w)
  writeFile path contents := attempt (·.write path contents)
  makeDirectories path := attempt (·.makeDirectories path)
  clock := pure (seconds, nanosecond)
  transmit _ _ _ := pure (.error "Connection refused (os error 111)")
  output text := fun w => ((), { w with output := w.output ++ text })
  errorOutput text := fun w => ((), { w with errorOutput := w.errorOutput ++ text })

end Workspace

end MonitorExport.CommandLine
