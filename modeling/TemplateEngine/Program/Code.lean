import TemplateEngine.Json.Decode
import TemplateEngine.Json.Reader
import TemplateEngine.Json.Writer
import TemplateEngine.Program.Basic

-- The code of a program: its tree as JSON text.
namespace TemplateEngine

namespace LoopKind

def code : LoopKind → String
  | foreach => "for_each"
  | forIn => "for"

def ofCode? (s : String) : Option LoopKind :=
  if s = "for_each" then some .foreach else if s = "for" then some .forIn else none

end LoopKind

namespace Node

open Json (Document)

mutual

def encode : Node → Document
  | text content => .record [("op", .text "text"), ("text", .text content)]
  | echo expr filters escape => .record
      [("op", .text "echo"), ("expr", .text expr), ("filters", .texts filters), ("escape", .bool escape)]
  | choice branches none => .record
      [("op", .text "if"), ("branches", .array (encodeBranches branches)), ("otherwise", .null)]
  | choice branches (some body) => .record
      [("op", .text "if"), ("branches", .array (encodeBranches branches)),
        ("otherwise", .array (encodeAll body))]
  | loop kind header body => .record
      [("op", .text "loop"), ("kind", .text kind.code), ("header", .text header),
        ("body", .array (encodeAll body))]
  | block name body => .record
      [("op", .text "block"), ("name", .text name), ("body", .array (encodeAll body))]
  | parent => .record [("op", .text "parent")]
  | extending name line => .record
      [("op", .text "extends"), ("name", .text name), ("line", .natural line)]
  | including name line => .record
      [("op", .text "include"), ("name", .text name), ("line", .natural line)]

def encodeAll : List Node → List Document
  | [] => []
  | node :: nodes => encode node :: encodeAll nodes

def encodeBranches : List (Branch Node) → List Document
  | [] => []
  | ⟨condition, body⟩ :: branches =>
    .record [("condition", .text condition), ("body", .array (encodeAll body))] :: encodeBranches branches

end

def kinds : List String := ["text", "echo", "if", "loop", "block", "parent", "extends", "include"]

-- The kind of a node, which a node inside another one may also give by its number.
def kind? (inner : Bool) (d : Document) : Option String :=
  match d, inner with
  | .number (some (.integer n)), true => if 0 ≤ n then kinds[n.toNat]? else none
  | d, _ => d.string?

-- The kind and the rest of a node. The kind stands under `op`, or first in a list.
def tagged? (inner : Bool) (d : Document) : Option (String × Document) :=
  match d with
  | .object members =>
    match Document.fieldOf "op" members with
    | .once tag =>
      (kind? inner tag).map fun kind => (kind, .object (members.filter fun (name, _) => name != some "op"))
    | _ => none
  | .array (tag :: rest) => (kind? inner tag).map fun kind => (kind, .array rest)
  | _ => none

-- A kind of loop is a string, or an object whose only member has that name and nothing in it.
def loopKind? (d : Document) : Option LoopKind :=
  match d with
  | .object [(some name, .null)] | .object [(some name, .object [])] => LoopKind.ofCode? name
  | d => d.string?.bind LoopKind.ofCode?

-- Reads a node that is nested less deep than `room`.
def decode? (room : Nat) (inner : Bool) (d : Document) : Option Node :=
  match room with
  | 0 => none
  | room + 1 => do
    let all (d : Document) : Option (List Node) :=
      d.array?.bind fun items => items.mapM (decode? room true)
    let branch (d : Document) : Option (Branch Node) := do
      match ← d.fields? ["condition", "body"] 0 with
      | [some condition, some body] => return ⟨← condition.string?, ← all body⟩
      | _ => none
    let (kind, rest) ← tagged? inner d
    match kind with
    | "text" =>
      match ← rest.fields? ["text"] 0 with
      | [some content] => return .text (← content.string?)
      | _ => none
    | "echo" =>
      match ← rest.fields? ["expr", "filters", "escape"] 0 with
      | [some expr, some filters, some escape] =>
        return .echo (← expr.string?) (← filters.texts?) (← escape.bool?)
      | _ => none
    | "if" =>
      match ← rest.fields? ["branches", "otherwise"] 0 with
      | [some branches, otherwise] =>
        let branches ← (← branches.array?).mapM branch
        match otherwise with
        | none | some .null => return .choice branches none
        | some body => return .choice branches (some (← all body))
      | _ => none
    | "loop" =>
      match ← rest.fields? ["kind", "header", "body"] 0 with
      | [some kind, some header, some body] =>
        return .loop (← loopKind? kind) (← header.string?) (← all body)
      | _ => none
    | "block" =>
      match ← rest.fields? ["name", "body"] 0 with
      | [some name, some body] => return .block (← name.string?) (← all body)
      | _ => none
    | "parent" =>
      let _ ← rest.fields? [] 0
      return .parent
    | "extends" =>
      match ← rest.fields? ["name", "line"] 0 with
      | [some name, some line] => return .extending (← name.string?) (← line.natural?)
      | _ => none
    | "include" =>
      match ← rest.fields? ["name", "line"] 0 with
      | [some name, some line] => return .including (← name.string?) (← line.natural?)
      | _ => none
    | _ => none

end Node

namespace Program

open Json (Document)

def encode (p : Program) : Document :=
  .record [("version", .natural p.version), ("nodes", .array (Node.encodeAll p.nodes))]

def code (p : Program) : String := p.encode.toText

def versionLimit : Nat := 4294967296

def decode? (d : Document) : Option Program := do
  match ← d.fields? ["version", "nodes"] 0 with
  | [some version, some nodes] =>
    let version ← version.natural?
    let nodes ← nodes.array?
    if version < versionLimit && nodes.all fun node => node.intact && node.depth + 2 ≤ Document.maxDepth then
      return ⟨version, ← nodes.mapM (Node.decode? Document.maxDepth false)⟩
    else none
  | _ => none

def ofCode? (code : String) : Option Program := (Document.read? code).bind decode?

end Program

end TemplateEngine
