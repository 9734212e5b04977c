/-
  Files of a system.

  A file is named by the way to it from the root. A path is followed from the root or from the
  working directory, and a directory exists if something lies in it. A write opens its file first,
  which makes it new or empty, and stores the text then: if the device takes only a part of the
  text, that part stays.
-/

namespace Reactive.CommandLine

/-! ## Disks -/

/-- The names on the way from the root to a file or directory. -/
abbrev Place := List String

/-- What stands at a place. -/
inductive Entry where
  | directory
  | file (content : ByteArray)
  /-- Another name of the standard output. -/
  | output
  /-- Takes every text and keeps none. -/
  | sink
deriving Inhabited

/-- The entry is that of a directory. -/
def Entry.isDirectory : Entry → Bool
  | .directory => true
  | _ => false

/-- The files of a system, as a program finds them. -/
structure Disk where
  /-- The working directory. -/
  here : Place
  entries : List (Place × Entry)
  mayRead : Place → Bool
  /-- What stands at a place may be written to, or something new in the directory there. -/
  mayWrite : Place → Bool
  /-- The number of bytes that a file at a place can hold, if there is a limit. -/
  room : Place → Option Nat
deriving Inhabited

/-- Why a file cannot be read or written. -/
inductive FileFault where
  | missing | isDirectory | notDirectory | denied | notText | unreadable | full
deriving DecidableEq, Repr, Inhabited

/-- The words of the system for a fault. -/
def FileFault.message : FileFault → String
  | .missing => "No such file or directory (os error 2)"
  | .isDirectory => "Is a directory (os error 21)"
  | .notDirectory => "Not a directory (os error 20)"
  | .denied => "Permission denied (os error 13)"
  | .notText => "stream did not contain valid UTF-8"
  | .unreadable => "Bad file descriptor (os error 9)"
  | .full => "No space left on device (os error 28)"

namespace Disk

/-- What stands at a place; directories that hold something need no entry. -/
def entryAt? (d : Disk) (place : Place) : Option Entry := d.entries.lookup place

/-- The disk with the content of one file changed. -/
def put (d : Disk) (place : Place) (content : ByteArray) : Disk :=
  { d with entries := d.entries.filter (·.1 != place) ++ [(place, .file content)] }

/-! ## Paths -/

/-- Something lies in a directory here. -/
def isDirectory (d : Disk) (place : Place) : Bool :=
  place.isPrefixOf d.here || d.entries.any fun e =>
    place.isPrefixOf e.1 && (place != e.1 || e.2.isDirectory)

end Disk

/-- Where a path leads. -/
inductive Location where
  | directory (place : Place)
  /-- To a place in a directory that is none itself; a slash may follow its name. -/
  | last (place : Place) (slash : Bool)
  | nowhere (fault : FileFault)
deriving DecidableEq, Repr, Inhabited

namespace Disk

/-- Follows the names of a path from a directory. -/
def follow (d : Disk) : Place → List String → Location
  | place, [] => .directory place
  | place, part :: parts =>
    if part == "" || part == "." then d.follow place parts
    else if part == ".." then d.follow place.dropLast parts
    else
      let there := place ++ [part]
      if d.isDirectory there then d.follow there parts
      else if parts.all (· == "") then .last there (!parts.isEmpty)
      else if (d.entryAt? there).isSome then .nowhere .notDirectory
      else .nowhere .missing

/-- Where a path leads. -/
def locate (d : Disk) (path : String) : Location :=
  match path.toList with
  | [] => .nowhere .missing
  | '/' :: rest => d.follow [] ((rest.splitOn '/').map String.ofList)
  | cs => d.follow d.here ((cs.splitOn '/').map String.ofList)

/-! ## Reading and writing -/

/-- The text of the file that a path leads to. -/
def readFile (d : Disk) (path : String) : Except FileFault String :=
  match d.locate path with
  | .nowhere fault => .error fault
  | .directory place => .error (if d.mayRead place then .isDirectory else .denied)
  | .last place slash =>
    match d.entryAt? place with
    | none => .error .missing
    | some e =>
      if slash then .error .notDirectory
      else if !d.mayRead place then .error .denied
      else match e with
        | .file content =>
          match String.fromUTF8? content with
          | some text => .ok text
          | none => .error .notText
        | .sink => .ok ""
        | .output => .error .unreadable
        | .directory => .error .isDirectory

/-- The place that a write to a path opens. -/
def openFile (d : Disk) (path : String) : Except FileFault Place :=
  match d.locate path with
  | .nowhere fault => .error fault
  | .directory _ => .error .isDirectory
  | .last place slash =>
    if slash then .error .isDirectory
    else if d.mayWrite (if (d.entryAt? place).isSome then place else place.dropLast) then .ok place
    else .error .denied

/-- There is room for the whole text at a place. -/
def fits (d : Disk) (place : Place) (text : String) : Bool :=
  match d.room place with
  | none => true
  | some bytes => decide (text.utf8ByteSize ≤ bytes)

/-- What a file at a place holds once a text has been written to it. -/
def stored (d : Disk) (place : Place) (text : String) : ByteArray :=
  match d.room place with
  | none => text.toUTF8
  | some bytes => text.toUTF8.extract 0 bytes

end Disk

/-! ## Listings of a directory -/

/-- Files of a directory by their paths in it, each with its text. -/
abbrev Files := List (String × String)

/-- Another name of the standard output. -/
def outputPlace : Place := ["dev", "stdout"]

/-- What keeps nothing. -/
def sinkPlace : Place := ["dev", "null"]

/-- The disk of a system that has these files in the working directory, and no limits. -/
def Disk.ofFiles (files : Files) : Disk :=
  let here := ["tmp", "work"]
  { here := here
    entries := [(outputPlace, .output), (sinkPlace, .sink)]
      ++ files.map fun f =>
        (here ++ (f.1.toList.splitOn '/').map String.ofList, .file f.2.toUTF8)
    mayRead := fun _ => true
    mayWrite := fun _ => true
    room := fun _ => none }

/-- The text files in the working directory of a disk. -/
def Disk.files (d : Disk) : Files :=
  d.entries.filterMap fun e =>
    match e.2 with
    | .file content =>
      if d.here.isPrefixOf e.1 then
        (String.fromUTF8? content).map fun text =>
          ("/".intercalate (e.1.drop d.here.length), text)
      else none
    | _ => none

/-- The files that are new or changed. -/
def changedFiles (before after : Files) : Files :=
  after.filter fun f => before.lookup f.1 != some f.2

end Reactive.CommandLine
