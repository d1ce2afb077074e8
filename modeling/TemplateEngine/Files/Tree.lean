import TemplateEngine.Files.Path
import TemplateEngine.Time.Instant

-- A tree of files: what stands at which place, and when it was last changed.
namespace TemplateEngine

-- A place in the tree, as the names from the root down.
abbrev Location := List String

inductive Entry where
  | file (content : ByteArray) (changed : Instant)
  | directory (changed : Instant)

def Entry.changed : Entry → Instant
  | file _ t => t
  | directory t => t

def Entry.isFile : Entry → Bool
  | file _ _ => true
  | directory _ => false

-- Entries by place. The root is a directory and stands for itself.
structure FileTree where
  entries : List (Location × Entry)

inductive FileFault where
  | missing
  | notDirectory
  | isDirectory
  | nameTooLong
  | occupied
  | badName
  | notText
  | busy
deriving DecidableEq, Repr

def FileFault.message : FileFault → String
  | missing => "No such file or directory (os error 2)"
  | notDirectory => "Not a directory (os error 20)"
  | isDirectory => "Is a directory (os error 21)"
  | nameTooLong => "File name too long (os error 36)"
  | occupied => "File exists (os error 17)"
  | badName => "file name contained an unexpected NUL byte"
  | notText => "stream did not contain valid UTF-8"
  | busy => "Device or resource busy (os error 16)"

namespace Location

def path (l : Location) : Path := ⟨"/" ++ "/".intercalate l⟩

def parent (l : Location) : Location := l.dropLast

end Location

namespace FileTree

def entry? (t : FileTree) (l : Location) : Option Entry := t.entries.lookup l

def isDirectoryAt (t : FileTree) (l : Location) : Bool :=
  match l, t.entry? l with
  | [], _ => true
  | _, some (.directory _) => true
  | _, _ => false

def set (t : FileTree) (l : Location) (e : Entry) : FileTree :=
  ⟨(l, e) :: t.entries.filter fun (other, _) => other != l⟩

def erase (t : FileTree) (l : Location) : FileTree :=
  ⟨t.entries.filter fun (other, _) => !l.isPrefixOf other⟩

def namesIn (t : FileTree) (l : Location) : List String :=
  t.entries.filterMap fun (other, _) => if other.parent = l && other ≠ [] then other.getLast? else none

def files (t : FileTree) : List Location :=
  (t.entries.filter fun (_, e) => e.isFile).map (·.1)

def maxName : Nat := 255

-- One step from a place along a path. Only directories lead on.
def step (t : FileTree) (l : Location) (name : String) : Except FileFault Location :=
  if !t.isDirectoryAt l then .error .notDirectory
  else if name = "" || name = "." then .ok l
  else if name = ".." then .ok l.parent
  else if maxName < name.utf8ByteSize then .error .nameTooLong
  else if (t.entry? (l ++ [name])).isSome then .ok (l ++ [name])
  else .error .missing

def stepNames (p : Path) : List String := (Path.pieces 0 [] p.text.toList).map fun (piece, _) => String.ofList piece

-- Where the steps of a path start. Relative paths start at `cwd`.
def start (cwd : Location) (p : Path) : Location := if p.isAbsolute then [] else cwd

def maxPath : Nat := 4096

-- What keeps a path from being used, whatever the tree.
def unusable? (p : Path) : Option FileFault :=
  if p.text.isEmpty then some .missing
  else if p.text.toList.contains (Char.ofNat 0) then some .badName
  else if maxPath ≤ p.text.utf8ByteSize then some .nameTooLong
  else none

def walk (t : FileTree) (l : Location) (names : List String) : Except FileFault Location := names.foldlM t.step l

def resolve (t : FileTree) (cwd : Location) (p : Path) : Except FileFault Location :=
  match unusable? p with
  | some fault => .error fault
  | none => t.walk (start cwd p) (stepNames p)

-- The directory that all names of a path but the last lead to.
def directoryFor (t : FileTree) (cwd : Location) (p : Path) (names : List String) : Except FileFault Location :=
  match unusable? p with
  | some fault => .error fault
  | none => do
    let l ← t.walk (start cwd p) names.dropLast
    if t.isDirectoryAt l then return l else throw .notDirectory

def childOf (l : Location) (name : String) : Except FileFault Location :=
  if maxName < name.utf8ByteSize then .error .nameTooLong else .ok (l ++ [name])

-- The place of a file that need not exist, in a directory that does.
def target (t : FileTree) (cwd : Location) (p : Path) : Except FileFault Location := do
  let names := stepNames p
  let name := (names.getLast?).getD ""
  let l ← t.directoryFor cwd p names
  if name = "" then throw .isDirectory
  if name = "." || name = ".." then throw .busy
  childOf l name

-- The place of a directory that does not exist, in one that does. Slashes at the end of a path
-- count for nothing, but a step that stays or leads up names no new directory.
def vacancy (t : FileTree) (cwd : Location) (p : Path) : Except FileFault Location := do
  let names := ((stepNames p).reverse.dropWhile String.isEmpty).reverse
  let name := (names.getLast?).getD "."
  let l ← t.directoryFor cwd p names
  if name = "." || name = ".." then throw .occupied
  let l ← childOf l name
  if (t.entry? l).isSome then throw .occupied else return l

end FileTree

end TemplateEngine
