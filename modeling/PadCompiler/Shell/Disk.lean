import PadCompiler.Shell.Place
import PadCompiler.Shell.Run
import PadCompiler.Text.Utf8

/-!
# PadCompiler.Shell.Disk

Runs of the command line on a disk that is held in memory: the files before and
after, what was printed and the exit code.

Paths are followed name by name from the root or from the directory of the run.
-/

namespace PadCompiler.Shell

/-- The files on a disk, and what has been printed. -/
structure Disk where
  files : List (Place × List UInt8)
  stdout : List UInt8 := []
  stderr : List UInt8 := []

namespace Disk

/-- The disk with the given files in the directory of the run. -/
def ofFiles (files : List (String × List UInt8)) : Disk where
  files := files.map (fun (name, bytes) => (Place.here.child name, bytes)) ++ Place.commonFiles

/-- The content of the file at a place. -/
def file? (d : Disk) (place : Place) : Option (List UInt8) :=
  d.files.lookup place

/-- The disk with a file at a place, instead of what the file held. -/
def insert (d : Disk) (place : Place) (bytes : List UInt8) : Disk :=
  { d with files := (place, bytes) :: d.files.filter (·.1 != place) }

/-- The files in the directory of the run. -/
def filesHere (d : Disk) : List (String × List UInt8) :=
  d.files.filterMap fun
    | (name :: folder, bytes) => if folder = Place.here then some (name, bytes) else none
    | ([], _) => none

/-- The files in the directory of the run that another disk lacks or holds with
other content. -/
def changedSince (d before : Disk) : List (String × List UInt8) :=
  d.filesHere.filter fun (name, bytes) => before.file? (Place.here.child name) != some bytes

/-! ## Following paths -/

/-- What can be at a place. -/
inductive Node where
  | folder (f : Place.Folder)
  | device (dev : Place.Device)
  | file (bytes : List UInt8)

/-- What is at a place. -/
def node? (d : Disk) (place : Place) : Option Node :=
  (place.folder?.map .folder).or ((place.device?.map .device).or ((d.file? place).map .file))

/-- Follows one name from a directory: `.` stays, `..` goes up, any other leads to a
place inside. -/
def step (f : Place.Folder) (place : Place) (name : String) : Except FileError Place :=
  if name = "." then .ok place
  else if name = ".." then .ok place.tail
  else if f.limited ∧ Path.nameLimit < name.utf8ByteSize then .error .nameTooLong
  else .ok (place.child name).follow

/-- The directory at a place. -/
def enter (d : Disk) (place : Place) : Except FileError Place.Folder :=
  match d.node? place with
  | some (.folder f) => .ok f
  | some _ => .error .notDirectory
  | none => .error .missing

/-- Follows names that must all lead to directories. -/
def walk (d : Disk) (f : Place.Folder) (place : Place) :
    List String → Except FileError (Place.Folder × Place)
  | [] => .ok (f, place)
  | name :: rest => do
    let next ← step f place name
    d.walk (← d.enter next) next rest

/-- The directory that holds what a path leads to. -/
def holder (d : Disk) (path : Path) : Except FileError (Place.Folder × Place) :=
  d.walk .plain (if path.absolute then [] else Place.here) path.leading

/-! ## Reading and writing -/

/-- Reads a device. -/
def readDevice : Place.Device → Except FileError (List UInt8)
  | .endless | .full => .error .endless
  | .terminal => .error .noDevice
  | .null | .stdout | .stderr => .ok []

/-- Reads a file.  A path that ends with a slash can only mean a directory. -/
def read (d : Disk) (text : String) : Except FileError (List UInt8) := do
  let path ← Path.parse text
  let (f, place) ← d.holder path
  match d.node? (← step f place path.last) with
  | none => throw .missing
  | some (.folder _) => throw .isDirectory
  | some (.device dev) => if path.slashed then throw .notDirectory else readDevice dev
  | some (.file bytes) => if path.slashed then throw .notDirectory else pure bytes

/-- Writes to a device; the standard streams show what is written. -/
def writeDevice (d : Disk) (bytes : List UInt8) : Place.Device → Except FileError Disk
  | .null | .endless => .ok d
  | .full => if bytes.isEmpty then .ok d else .error .noSpace
  | .terminal => .error .noDevice
  | .stdout => .ok { d with stdout := d.stdout ++ bytes }
  | .stderr => .ok { d with stderr := d.stderr ++ bytes }

/-- Writes a file, which need not be there yet if its directory takes new ones. -/
def write (d : Disk) (text : String) (bytes : List UInt8) : Except FileError Disk := do
  let path ← Path.parse text
  let (f, place) ← d.holder path
  if path.slashed then throw .isDirectory
  let target ← step f place path.last
  match d.node? target with
  | some (.folder _) => throw .isDirectory
  | some (.device dev) => d.writeDevice bytes dev
  | some (.file _) => pure (d.insert target bytes)
  | none =>
    match f.refusal with
    | some e => throw e
    | none => pure (d.insert target bytes)

/-! ## Runs -/

/-- The disk as the surroundings of a run. -/
def console : Console (StateM Disk) where
  readFile path := return ((← get).read path).mapError FileError.message
  writeFile path bytes := do
    match (← get).write path bytes with
    | .ok d =>
      set d
      pure (.ok ())
    | .error e => pure (.error e.message)
  printOut text := modify fun d => { d with stdout := d.stdout ++ text.toUTF8.data.toList }
  printErr text := modify fun d => { d with stderr := d.stderr ++ text.toUTF8.data.toList }

/-- Runs the program with arguments on a disk. -/
def run (d : Disk) (args : List String) : UInt32 × Disk :=
  Id.run ((Shell.run console (programName :: args)).run d)

end Disk

end PadCompiler.Shell
