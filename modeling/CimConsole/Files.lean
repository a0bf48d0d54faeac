import CimConsole.NameTable
import CimConsole.Text.Pieces

/-!
The files that a run can see, as a value. A path is walked from the working directory
or, behind a leading slash, from the root; every step but the last must end in a
directory. Writing replaces a text and never a directory.
-/
namespace CimConsole

open Text

inductive FileEntry where
  | text (s : String)
  | malformed
  | directory
deriving DecidableEq, Repr

/-- Why a file cannot be read or written. -/
inductive FileFault where
  | notFound
  | exists
  | notDirectory
  | isDirectory
  | notText
deriving DecidableEq, Repr

def FileFault.message : FileFault → String
  | .notFound => "No such file or directory (os error 2)"
  | .exists => "File exists (os error 17)"
  | .notDirectory => "Not a directory (os error 20)"
  | .isDirectory => "Is a directory (os error 21)"
  | .notText => "stream did not contain valid UTF-8"

/-- Entries under their place, which is the list of its steps joined by slashes. -/
structure Files where
  entries : NameTable FileEntry := .empty
deriving Inhabited, DecidableEq

namespace Files

/-- Where a walk stands: the steps from the start, the last one in front. -/
abbrev Place := List String

def placeName (place : Place) : String := join "/" place.reverse

def entry? (fs : Files) (place : Place) : Option FileEntry :=
  match place with
  | [] => some .directory
  | ["/"] => some .directory
  | _ => fs.entries.get? (placeName place)

def step (place : Place) (part : String) : Place :=
  if part == "." then place
  else if part == ".." then
    match place with
    | [] => [".."]
    | ["/"] => ["/"]
    | ".." :: _ => ".." :: place
    | _ :: rest => rest
  else part :: place

def start (path : String) : Place := if path.toList.head? == some '/' then ["/"] else []

/-- The steps of a path; a slash at the end is a step that stays in place. -/
def parts (path : String) : List String :=
  (split '/' path).filter (· ≠ "") ++ (if path.toList.getLast? == some '/' then ["."] else [])

def walk (fs : Files) : Place → List String → Except FileFault Place
  | place, [] => .ok place
  | place, part :: rest =>
    match fs.entry? place with
    | some .directory => walk fs (step place part) rest
    | some _ => .error .notDirectory
    | none => .error .notFound

def locate (fs : Files) (path : String) : Except FileFault Place :=
  if path == "" then .error .notFound else fs.walk (start path) (parts path)

def has (fs : Files) (path : String) : Bool :=
  match fs.locate path with
  | .ok place => (fs.entry? place).isSome
  | .error _ => false

def read (fs : Files) (path : String) : Except FileFault String := do
  let place ← fs.locate path
  match fs.entry? place with
  | some (.text s) => .ok s
  | some .malformed => .error .notText
  | some .directory => .error .isDirectory
  | none => .error .notFound

def write (fs : Files) (path : String) (content : String) : Except FileFault Files := do
  let endsInSlash := path.toList.getLast? == some '/'
  let place ← fs.locate (if endsInSlash then trimEndMark '/' path else path)
  match fs.entry? place, endsInSlash with
  | some .directory, _ => .error .isDirectory
  | some _, true => .error .notDirectory
  | none, true => .error .isDirectory
  | _, false => .ok ⟨fs.entries.insert (placeName place) (.text content)⟩

/-- Makes the directories of a walk that are not there yet. -/
def makeAlong (fs : Files) : Place → List String → Except FileFault Files
  | _, [] => .ok fs
  | place, part :: rest =>
    let next := step place part
    match fs.entry? next with
    | some .directory => makeAlong fs next rest
    | some _ => .error (if rest.isEmpty then .exists else .notDirectory)
    | none => makeAlong ⟨fs.entries.insert (placeName next) .directory⟩ next rest

/-- Makes the directories above a path. -/
def makeParents (fs : Files) (path : String) : Except FileFault Files :=
  fs.makeAlong (start path) (((split '/' path).filter fun p => p ≠ "" ∧ p ≠ ".").dropLast)

/-- The last step of a path, slashes at the end aside. -/
def lastStep (path : String) : String :=
  (((split '/' path).filter fun p => p ≠ "" ∧ p ≠ ".").getLast?).getD ""

/-- What follows the last point of the last step, if anything stands before the point. -/
def extension (path : String) : String :=
  match cutLast '.' (lastStep path).toList with
  | some (_ :: _, ext) => if lastStep path == ".." then "" else String.ofList ext
  | _ => ""

/-- Puts an entry at a path and makes the directories above it. -/
def put (fs : Files) (path : String) (entry : FileEntry) : Except FileFault Files :=
  match entry with
  | .directory => fs.makeAlong (start path) (parts path)
  | .text s => do
    let fs ← fs.makeParents path
    fs.write path s
  | .malformed => do
    let fs ← fs.makeParents path
    let place ← fs.locate path
    pure ⟨fs.entries.insert (placeName place) .malformed⟩

/-- A working directory with these entries in it; one that cannot be put is left out. -/
def ofList (entries : List (String × FileEntry)) : Files :=
  entries.foldl (fun fs e => (fs.put e.1 e.2).toOption.getD fs) {}

end Files

end CimConsole
