import TraceViews.Text.Number

/-!
# Reading files by path

A path is walked name by name through folders. Whatever cannot be read has a fault that says why;
of several faults on a path the one furthest to the left counts, but for a path too long as a
whole, which is not walked at all.
-/

namespace TraceViews

/-- Why a file cannot be read. -/
inductive FileFault where
  | absent
  | broken
  | noDevice
  | denied
  | notFolder
  | isFolder
  | nameTooLong
  | notText
  deriving DecidableEq, Repr

namespace FileFault

/-- The number of a fault in the operating system's list; it has none for the content. -/
def number? : FileFault → Option Nat
  | absent => some 2
  | broken => some 5
  | noDevice => some 6
  | denied => some 13
  | notFolder => some 20
  | isFolder => some 21
  | nameTooLong => some 36
  | notText => none

/-- The fault of a number. -/
def ofNumber? (number : Nat) : Option FileFault :=
  [absent, broken, noDevice, denied, notFolder, isFolder, nameTooLong].find?
    fun fault => fault.number? == some number

/-- The words for a fault. -/
def describe : FileFault → String
  | absent => "No such file or directory"
  | broken => "Input/output error"
  | noDevice => "No such device or address"
  | denied => "Permission denied"
  | notFolder => "Not a directory"
  | isFolder => "Is a directory"
  | nameTooLong => "File name too long"
  | notText => "stream did not contain valid UTF-8"

def message (fault : FileFault) : String :=
  match fault.number? with
  | some number => fault.describe ++ " (os error " ++ Text.showNat number ++ ")"
  | none => fault.describe

end FileFault

/-- A file, with what reading it gives, or a folder. -/
inductive FileTree where
  | file (content : Except FileFault String)
  | folder (entries : List (String × FileTree))

/-- The most bytes of one name. -/
def maxNameBytes : Nat := 255

/-- The most bytes of a path. -/
def maxPathBytes : Nat := 4095

/-- A place in a file tree: what is there, and the folders around it from the inside out. -/
structure Place where
  here : FileTree
  around : List FileTree

namespace Place

/-- The outermost folder. -/
def root (p : Place) : Place := ⟨p.around.getLastD p.here, []⟩

/-- Walks on by a name. An empty name and a dot stay, two dots lead to the folder around, which is
the outermost one itself where there is none. -/
def enter (p : Place) (name : String) : Except FileFault Place :=
  match p.here with
  | .file _ => .error .notFolder
  | .folder entries =>
    if name.isEmpty || name == "." then .ok p
    else if name == ".." then
      match p.around with
      | [] => .ok p
      | outer :: around => .ok ⟨outer, around⟩
    else if name.utf8ByteSize > maxNameBytes then .error .nameTooLong
    else
      match entries.lookup name with
      | none => .error .absent
      | some tree => .ok ⟨tree, p.here :: p.around⟩

/-- The place that a path leads to. One that begins with a slash begins at the outermost folder. -/
def follow (p : Place) (path : String) : Except FileFault Place :=
  if path.isEmpty then .error .absent
  else if path.utf8ByteSize > maxPathBytes then .error .nameTooLong
  else (path.splitOn "/").foldlM enter (if path.startsWith "/" then p.root else p)

/-- Reads the file that a path leads to. -/
def read (p : Place) (path : String) : Except FileFault String :=
  match p.follow path with
  | .error fault => .error fault
  | .ok ⟨.folder _, _⟩ => .error .isFolder
  | .ok ⟨.file content, _⟩ => content

end Place

end TraceViews
