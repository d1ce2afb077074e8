import TemplateEngine.Compile.Fault
import TemplateEngine.Markup.Fault
import TemplateEngine.Program.Basic

-- Templates that extend another one: they give bodies to blocks of their base.
namespace TemplateEngine.Compile

mutual

def baseLine? : Node → Option Nat
  | .extending _ line => some line
  | .choice branches none => baseLineInBranches? branches
  | .choice branches (some body) => (baseLineInBranches? branches).or (baseLineIn? body)
  | .loop _ _ body => baseLineIn? body
  | .block _ body => baseLineIn? body
  | _ => none

def baseLineIn? : List Node → Option Nat
  | [] => none
  | node :: nodes => (baseLine? node).or (baseLineIn? nodes)

def baseLineInBranches? : List (Branch Node) → Option Nat
  | [] => none
  | ⟨_, body⟩ :: branches => (baseLineIn? body).or (baseLineInBranches? branches)

end

-- The base that a template extends. It is named once and at the top. `found` is the base named
-- by the nodes before.
def base? (found : Option String) : List Node → Except Markup.Error (Option String)
  | [] => .ok found
  | .extending name line :: nodes =>
    match found with
    | some _ => .error ⟨line, .secondBase⟩
    | none => base? (some name) nodes
  | node :: nodes =>
    match baseLine? node with
    | some line => .error ⟨line, .nestedBase⟩
    | none => base? found nodes

mutual

def topBlocks : Node → List Node
  | .block name body => [.block name body]
  | .choice branches none => topBlocksOfBranches branches
  | .choice branches (some body) => topBlocksOfBranches branches ++ topBlocksOf body
  | .loop _ _ body => topBlocksOf body
  | _ => []

def topBlocksOf : List Node → List Node
  | [] => []
  | node :: nodes => topBlocks node ++ topBlocksOf nodes

def topBlocksOfBranches : List (Branch Node) → List Node
  | [] => []
  | ⟨_, body⟩ :: branches => topBlocksOf body ++ topBlocksOfBranches branches

end

-- Bodies that a template gives to blocks, by name. Of two for one name the first counts.
abbrev Overrides := List (String × List Node)

mutual

-- The blocks at a node: the block itself, then those right inside blocks.
def blockBodies : Node → Overrides
  | .block name body => (name, body) :: blockBodiesOf body
  | _ => []

def blockBodiesOf : List Node → Overrides
  | [] => []
  | node :: nodes => blockBodies node ++ blockBodiesOf nodes

end

mutual

-- Puts the body of the base's block into the parent slots of an overriding body. The slots of a
-- block inside belong to the block of that name in the base; without one they stay.
def fillSlots (base : List Node) : Node → List Node
  | .parent => base
  | .block name body =>
    match Node.findBlockIn name base with
    | some inner => [.block name (fillSlotsOf inner body)]
    | none => [.block name body]
  | .choice branches none => [.choice (fillSlotsOfBranches base branches) none]
  | .choice branches (some body) =>
    [.choice (fillSlotsOfBranches base branches) (some (fillSlotsOf base body))]
  | .loop kind header body => [.loop kind header (fillSlotsOf base body)]
  | node => [node]

def fillSlotsOf (base : List Node) : List Node → List Node
  | [] => []
  | node :: nodes => fillSlots base node ++ fillSlotsOf base nodes

def fillSlotsOfBranches (base : List Node) : List (Branch Node) → List (Branch Node)
  | [] => []
  | ⟨condition, body⟩ :: branches => ⟨condition, fillSlotsOf base body⟩ :: fillSlotsOfBranches base branches

end

mutual

-- Replaces the blocks of a base that have an override, and keeps all else.
def merge (overrides : Overrides) : Node → Node
  | .block name body =>
    match overrides.lookup name with
    | some given => .block name (fillSlotsOf body given)
    | none => .block name (mergeAll overrides body)
  | .choice branches none => .choice (mergeBranches overrides branches) none
  | .choice branches (some body) =>
    .choice (mergeBranches overrides branches) (some (mergeAll overrides body))
  | .loop kind header body => .loop kind header (mergeAll overrides body)
  | node => node

def mergeAll (overrides : Overrides) : List Node → List Node
  | [] => []
  | node :: nodes => merge overrides node :: mergeAll overrides nodes

def mergeBranches (overrides : Overrides) : List (Branch Node) → List (Branch Node)
  | [] => []
  | ⟨condition, body⟩ :: branches => ⟨condition, mergeAll overrides body⟩ :: mergeBranches overrides branches

end

end TemplateEngine.Compile
