import TemplateEngine.Markup.Directive
import TemplateEngine.Markup.Echo
import TemplateEngine.Markup.Segment

-- The tree of a source. Segments are taken one by one; what is open at the time stands on a stack.
namespace TemplateEngine.Markup

-- An open construct. A branch keeps the line of the `if` it belongs to, and the branches before it.
inductive Opened where
  | branch (line : Nat) (before : List (Branch Node)) (condition : String)
  | otherwise (line : Nat) (branches : List (Branch Node))
  | loop (line : Nat) (kind : LoopKind) (header : String)
  | block (line : Nat) (name : String)

def Opened.unclosed : Opened → Error
  | branch line _ _ => ⟨line, .unclosedIf⟩
  | otherwise line _ => ⟨line, .unclosedElse⟩
  | loop line kind _ => ⟨line, .unclosedLoop kind⟩
  | block line name => ⟨line, .unclosedBlock name⟩

-- The nodes read so far at the present depth, and around them the open constructs, innermost
-- first, each with the nodes that stand before it.
structure Builder where
  nodes : List Node
  opened : List (List Node × Opened)

namespace Builder

def start : Builder := ⟨[], []⟩

def push (b : Builder) (node : Node) : Builder := { b with nodes := b.nodes ++ [node] }

def enter (b : Builder) (construct : Opened) : Builder := ⟨[], (b.nodes, construct) :: b.opened⟩

-- Takes a directive that ends or divides the innermost open construct.
def close (b : Builder) (d : Directive) : Except Fault Builder :=
  match b.opened, d with
  | (before, .branch line done condition) :: outer, .elseIf next =>
    .ok ⟨[], (before, .branch line (done ++ [⟨condition, b.nodes⟩]) next) :: outer⟩
  | (before, .branch _ done condition) :: outer, .endIf =>
    .ok ⟨before ++ [.choice (done ++ [⟨condition, b.nodes⟩]) none], outer⟩
  | (before, .otherwise _ branches) :: outer, .endIf =>
    .ok ⟨before ++ [.choice branches (some b.nodes)], outer⟩
  | (before, .loop _ kind header) :: outer, .endLoop ended =>
    if kind = ended then .ok ⟨before ++ [.loop kind header b.nodes], outer⟩
    else .error (.unexpected d.keyword)
  | (before, .block _ name) :: outer, .endBlock => .ok ⟨before ++ [.block name b.nodes], outer⟩
  | _, _ => .error (.unexpected d.keyword)

-- Takes an `else`, which keeps its own line.
def divide (b : Builder) (line : Nat) : Except Fault Builder :=
  match b.opened with
  | (before, .branch _ done condition) :: outer =>
    .ok ⟨[], (before, .otherwise line (done ++ [⟨condition, b.nodes⟩])) :: outer⟩
  | _ => .error (.unexpected Directive.openElse.keyword)

def direct (b : Builder) (line : Nat) (d : Directive) : Except Fault Builder :=
  match d with
  | .openIf condition => .ok (b.enter (.branch line [] condition))
  | .openLoop kind header => .ok (b.enter (.loop line kind header))
  | .openBlock name => .ok (b.enter (.block line name))
  | .parent => .ok (b.push .parent)
  | .extending name => .ok (b.push (.extending name line))
  | .including name => .ok (b.push (.including name line))
  | .openElse => b.divide line
  | .elseIf _ | .endIf | .endLoop _ | .endBlock => b.close d

def take (b : Builder) (p : Placed) : Except Error Builder :=
  let result : Except Fault Builder :=
    match p.segment with
    | .text content => .ok (b.push (.text (String.ofList content)))
    | .echo body => (readEcho body).map b.push
    | .tag body => (readDirective body).bind (b.direct p.line)
    | .comment _ => .ok b
    | .literal _ content _ => .ok (if content.isEmpty then b else b.push (.text (String.ofList content)))
  result.mapError fun fault => ⟨p.line, fault⟩

def finish (b : Builder) : Except Error (List Node) :=
  match b.opened with
  | [] => .ok b.nodes
  | (_, construct) :: _ => .error construct.unclosed

end Builder

def build (placed : List Placed) : Except Error (List Node) :=
  (placed.foldlM Builder.take Builder.start).bind Builder.finish

-- The tree of a source whose script spans are gone.
def read (source : List Char) : Except Error (List Node) := (segments 1 source).bind build

end TemplateEngine.Markup
