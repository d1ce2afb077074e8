-- Paths as they are written. Two paths with the same parts name the same place, however many
-- slashes stand between the parts.
namespace TemplateEngine

structure Path where
  text : String
deriving DecidableEq, Repr

-- The parts of a path: its root, the working directory in front, a step up, or a name.
inductive PathPart where
  | root
  | here
  | up
  | name (n : String)
deriving DecidableEq, Repr

def PathPart.rank : PathPart → Nat
  | root => 0
  | here => 1
  | up => 2
  | name _ => 3

def PathPart.before (a b : PathPart) : Bool :=
  match a, b with
  | name m, name n => m < n
  | a, b => a.rank < b.rank

namespace Path

def isAbsolute (p : Path) : Bool := p.text.toList.head? == some '/'

-- The text between slashes, with the place where each piece ends. `piece` holds what is read of
-- the present piece, newest first.
def pieces (position : Nat) (piece : List Char) : List Char → List (List Char × Nat)
  | [] => [(piece.reverse, position)]
  | c :: rest =>
    if c = '/' then (piece.reverse, position) :: pieces (position + 1) [] rest
    else pieces (position + 1) (c :: piece) rest

-- The part that a piece stands for. Empty pieces and single points count for nothing, but for a
-- point at the front.
def partOf? (first : Bool) (piece : List Char × Nat) : Option (PathPart × Nat) :=
  if piece.1 = [] then none
  else if piece.1 = ['.'] then if first then some (.here, piece.2) else none
  else if piece.1 = ['.', '.'] then some (.up, piece.2)
  else some (.name (String.ofList piece.1), piece.2)

-- The parts of a path with the place in the text where each ends.
def located (p : Path) : List (PathPart × Nat) :=
  let bodies :=
    match pieces 0 [] p.text.toList with
    | [] => []
    | front :: others => (partOf? true front).toList ++ others.filterMap (partOf? false)
  if p.isAbsolute then (.root, 1) :: bodies else bodies

def parts (p : Path) : List PathPart := p.located.map (·.1)

def same (p q : Path) : Bool := p.parts == q.parts

def partsBefore : List PathPart → List PathPart → Bool
  | [], _ :: _ => true
  | _, [] => false
  | a :: as, b :: bs => a.before b || (a == b && partsBefore as bs)

def before (p q : Path) : Bool := partsBefore p.parts q.parts

-- The path up to the last part but one.
def parent? (p : Path) : Option Path :=
  match p.located.reverse with
  | [] | (.root, _) :: _ => none
  | [_] => some ⟨""⟩
  | _ :: (_, stop) :: _ => some ⟨String.ofList (p.text.toList.take stop)⟩

-- A path below another one. An absolute path stands for itself.
def join (p : Path) (below : String) : Path :=
  if below.toList.head? == some '/' then ⟨below⟩
  else
    match p.text.toList.getLast? with
    | none => ⟨below⟩
    | some '/' => ⟨p.text ++ below⟩
    | some _ => ⟨p.text ++ "/" ++ below⟩

def fileName? (p : Path) : Option String :=
  match p.parts.getLast? with
  | some (.name n) => some n
  | _ => none

-- A file name has an extension if it holds a point after its first character.
def hasExtension (p : Path) : Bool :=
  match p.fileName? with
  | some n => n.toList.tail.contains '.'
  | none => false

-- The parent of a path, or the working directory where that would be empty.
def directory (p : Path) : Path :=
  match p.parent? with
  | some q => if q.text.isEmpty then ⟨"."⟩ else q
  | none => ⟨"."⟩

end Path

end TemplateEngine
