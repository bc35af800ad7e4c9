import PadCompiler.Shell.Path

/-!
# PadCompiler.Shell.Place

Places on a system, and what is at them on every system: the directories near the
root, the devices, the standard streams, and a few files.
-/

namespace PadCompiler.Shell

/-- A place: the names that lead to it from the root, the last one first.  The root
itself is the empty list, and what is above a place is its tail, so that the root
stands for what is above it. -/
abbrev Place := List String

namespace Place

/-- Where a run starts: a directory among the temporary ones, under a name that no
path can spell. -/
def here : Place :=
  ["", "tmp"]

/-- Where the standard streams are, by number. -/
def streams : Place :=
  ["fd", "self", "proc"]

/-- The place of a name in a directory. -/
def child (folder : Place) (name : String) : Place :=
  name :: folder

/-! ## Directories -/

/-- What a directory does with names: why it takes no new file, if it takes none,
and whether a name in it can be too long. -/
structure Folder where
  refusal : Option FileError
  limited : Bool
deriving DecidableEq, Repr

namespace Folder

/-- A directory on a disk. -/
def plain : Folder :=
  ⟨none, true⟩

/-- A directory that shows what runs. -/
def processes : Folder :=
  ⟨some .missing, false⟩

/-- A directory that shows how the system is built. -/
def settings : Folder :=
  ⟨some .denied, false⟩

/-- The directory of terminals. -/
def terminals : Folder :=
  ⟨some .denied, true⟩

end Folder

/-- The directories on the disk. -/
def plainFolders : List Place :=
  [[], here]
    ++ ["boot", "dev", "etc", "home", "media", "mnt", "opt", "root", "run", "srv", "tmp", "usr",
      "var"].map (child [])
    ++ ["bin", "games", "include", "lib", "lib64", "libexec", "local", "sbin", "share", "src"].map
      (child ["usr"])
    ++ ["bin", "etc", "games", "include", "lib", "sbin", "share", "src"].map
      (child ["local", "usr"])
    ++ ["backups", "cache", "lib", "local", "log", "mail", "opt", "spool", "tmp"].map
      (child ["var"])
    ++ [["lock", "run"], ["shm", "dev"]]

/-- The directories that show what runs. -/
def processFolders : List Place :=
  [["proc"], ["1", "proc"], ["self", "proc"], streams, ["sys", "proc"], ["kernel", "sys", "proc"]]

/-- The directories that show how the system is built. -/
def settingsFolders : List Place :=
  ["sys"] ::
    ["block", "bus", "class", "dev", "devices", "firmware", "fs", "kernel", "module", "power"].map
      (child ["sys"])

/-- The directory at a place. -/
def folder? (place : Place) : Option Folder :=
  if place ∈ plainFolders then some .plain
  else if place ∈ processFolders then some .processes
  else if place ∈ settingsFolders then some .settings
  else if place = ["pts", "dev"] then some .terminals
  else none

/-- The places that stand for another one. -/
def links : List (Place × Place) :=
  [(["bin"], ["bin", "usr"]), (["lib"], ["lib", "usr"]), (["lib64"], ["lib64", "usr"]),
    (["sbin"], ["sbin", "usr"]), (["run", "var"], ["run"]), (["lock", "var"], ["lock", "run"]),
    (["fd", "dev"], streams), (["stdin", "dev"], child streams "0"),
    (["stdout", "dev"], child streams "1"), (["stderr", "dev"], child streams "2"),
    (["cwd", "self", "proc"], here), (["root", "self", "proc"], [])]

/-- The place that a place stands for. -/
def follow (place : Place) : Place :=
  (links.lookup place).getD place

/-! ## Devices -/

/-- The devices. -/
inductive Device where
  /-- Holds nothing and swallows all; so is the standard input, which is empty. -/
  | null
  /-- Can be read without end and swallows all. -/
  | endless
  /-- Can be read without end and takes nothing. -/
  | full
  /-- The terminal, where there is none. -/
  | terminal
  | stdout
  | stderr
deriving DecidableEq, Repr

/-- The devices and where they are. -/
def devices : List (Place × Device) :=
  [(["null", "dev"], .null), (["zero", "dev"], .endless), (["random", "dev"], .endless),
    (["urandom", "dev"], .endless), (["full", "dev"], .full), (["tty", "dev"], .terminal),
    (child streams "0", .null), (child streams "1", .stdout), (child streams "2", .stderr)]

/-- The device at a place. -/
def device? (place : Place) : Option Device :=
  devices.lookup place

/-! ## Files -/

/-- How a program file begins. -/
def executableMark : List UInt8 :=
  [0x7F, 0x45, 0x4C, 0x46, 2, 1, 1, 0, 0, 0, 0, 0, 0, 0, 0, 0]

/-- Files that are everywhere, as far as they are the same everywhere. -/
def commonFiles : List (Place × List UInt8) :=
  [(["passwd", "etc"],
      ("root:x:0:0:root:/root:/bin/bash\n" ++ "daemon:x:1:1:daemon:/usr/sbin:/usr/sbin/nologin\n"
        ++ "bin:x:2:2:bin:/bin:/usr/sbin/nologin\n").toUTF8.data.toList),
    (["group", "etc"], "root:x:0:\ndaemon:x:1:\nbin:x:2:\n".toUTF8.data.toList),
    (["hosts", "etc"], "127.0.0.1\tlocalhost\n".toUTF8.data.toList),
    (["version", "proc"], "Linux version ".toUTF8.data.toList)]
    ++ ["bash", "cat", "ls", "sh"].map fun name => (child ["bin", "usr"] name, executableMark)

end Place

end PadCompiler.Shell
