import ExactJson.Text.Bytes

/-!
# Names of files

The tool runs in a folder of plain files. A name given to it is walked part by part, the parts
split at `/`:

* a name that starts with `/` starts at the root, and any other name at the folder;
* an empty part and `.` stay where they are, and `..` goes up one folder;
* in the folder, a part names one of its files, or nothing;
* the folders above the folder, the root among them, are directories whose entries are not
  known here: from them, `..` stays above and any other name leads nowhere;
* a walk that has reached a file and goes on has used the file as a directory, and a walk that
  has led nowhere stays there, with the first fault it met.

Before the walk, a name holding a NUL octet is refused as an invalid argument, an empty name
names nothing, and a name of 4096 octets or more is too long; during the walk, a part of more
than 255 octets looked up in a directory is too long.
-/

namespace ExactJson.Cli

/-- Why a file cannot be read. -/
inductive FileFault where
  /-- No file has the name. -/
  | missing
  /-- The name is a directory. -/
  | directory
  /-- A part of the name that should be a directory is a file. -/
  | notDirectory
  /-- The name, or one of its parts, is longer than names may be. -/
  | tooLong
  /-- The name holds a NUL octet. -/
  | invalid
  deriving DecidableEq, Repr

/-- The text of a fault when a file is opened. -/
def FileFault.reason : FileFault → String
  | .missing => "no such file or directory"
  | .directory => "is a directory"
  | .notDirectory => "not a directory"
  | .tooLong => "file name too long"
  | .invalid => "invalid argument"

/-- The text of a fault met reading a whole file: a directory opens, and fails to read. -/
def FileFault.readText (name : Bytes) (f : FileFault) : Bytes :=
  Bytes.ofString (if f == .directory then "read " else "open ") ++ name ++
    Bytes.ofString (": " ++ f.reason)

/-- A folder of plain files, as a list of names and contents. -/
abbrev Folder := List (Bytes × Bytes)

/-- Where a walk along a name has got to. -/
inductive Place where
  /-- The folder the tool runs in. -/
  | folder
  /-- A folder above it, or the root. -/
  | above
  /-- A file of the folder. -/
  | file (name : Bytes)
  /-- Nowhere, for the reason given. -/
  | nowhere (fault : FileFault)
  deriving DecidableEq, Repr

/-- The longest part of a name, in octets. -/
def longestPart : Nat := 255

/-- The length from which a whole name is too long, in octets. -/
def longestName : Nat := 4096

/-- One step of a walk, along one part of a name. -/
def Place.step (folder : Folder) (p : Place) (part : Bytes) : Place :=
  match p with
  | .nowhere f => .nowhere f
  | .file _ => .nowhere .notDirectory
  | .folder | .above =>
    if part.isEmpty || part == [0x2E] then p
    else if part == [0x2E, 0x2E] then .above
    else if longestPart < part.length then .nowhere .tooLong
    else if p == .folder && (folder.lookup part).isSome then .file part
    else .nowhere .missing

/-- Where a walk starts, and the parts it goes along; or the fault that stops it first. -/
def Folder.walk (name : Bytes) : Except FileFault (Place × List Bytes) :=
  if name.contains 0 then .error .invalid
  else if name.isEmpty then .error .missing
  else if longestName ≤ name.length then .error .tooLong
  else .ok (if name.head? == some 0x2F then .above else .folder, name.splitOn 0x2F)

/-- Where a name leads from the folder. -/
def Folder.place (folder : Folder) (name : Bytes) : Place :=
  match Folder.walk name with
  | .error f => .nowhere f
  | .ok (start, parts) => parts.foldl (Place.step folder) start

/-- Reads the file a name leads to. -/
def Folder.read (folder : Folder) (name : Bytes) : Except FileFault Bytes :=
  match folder.place name with
  | .file n => .ok ((folder.lookup n).getD [])
  | .folder | .above => .error .directory
  | .nowhere f => .error f

/-- The entry of the folder that writing to a name makes or replaces: the name's last part,
when the parts before it lead to the folder and it is a plain name. -/
def Folder.entry (folder : Folder) (name : Bytes) : Option Bytes :=
  match Folder.walk name with
  | .error _ => none
  | .ok (start, parts) =>
    let last := parts.getLastD []
    let plain := !last.isEmpty && last != [0x2E] && last != [0x2E, 0x2E] &&
      last.length ≤ longestPart
    if plain && parts.dropLast.foldl (Place.step folder) start == .folder then some last
    else none

/-- Writes a file of the folder, in place when it is there, and last otherwise. -/
def Folder.put (folder : Folder) (name text : Bytes) : Folder :=
  if (folder.lookup name).isSome then
    folder.map fun (n, t) => if n == name then (n, text) else (n, t)
  else folder ++ [(name, text)]

end ExactJson.Cli
