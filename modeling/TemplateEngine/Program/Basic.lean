import TemplateEngine.Markup.Node

-- Compiled templates and the search for their blocks.
namespace TemplateEngine

structure Program where
  version : Nat
  nodes : List Node

def Program.currentVersion : Nat := 1

def Program.ofNodes (nodes : List Node) : Program := ⟨Program.currentVersion, nodes⟩

namespace Node

mutual

-- The body of the first block of a name, outer blocks before the ones inside them.
def findBlock (name : String) : Node → Option (List Node)
  | block other body => if other = name then some body else findBlockIn name body
  | loop _ _ body => findBlockIn name body
  | choice branches none => findBlockInBranches name branches
  | choice branches (some body) =>
    (findBlockInBranches name branches).or (findBlockIn name body)
  | _ => none

def findBlockIn (name : String) : List Node → Option (List Node)
  | [] => none
  | node :: nodes => (findBlock name node).or (findBlockIn name nodes)

def findBlockInBranches (name : String) : List (Branch Node) → Option (List Node)
  | [] => none
  | ⟨_, body⟩ :: branches => (findBlockIn name body).or (findBlockInBranches name branches)

end

end Node

def Program.block? (p : Program) (name : String) : Option (List Node) := Node.findBlockIn name p.nodes

end TemplateEngine
