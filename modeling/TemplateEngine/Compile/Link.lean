import TemplateEngine.Compile.Filters
import TemplateEngine.Compile.Inheritance
import TemplateEngine.Compile.Locate
import TemplateEngine.Markup.Script
import TemplateEngine.Markup.Tree
import TemplateEngine.Program.Code

-- Joining a template with the templates it includes and extends. The templates being joined
-- stand on a stack, none of them twice, so that joining ends.
namespace TemplateEngine.Compile

-- What has been found so far: the files used, and how each name was resolved.
structure Trail where
  dependencies : List Path
  resolutions : List Resolution

def Trail.empty : Trail := ⟨[], []⟩

def Trail.record (t : Trail) (name : String) (origin : Option Path) (path : Path) : Trail where
  dependencies :=
    if t.dependencies.any (·.same path) then t.dependencies else t.dependencies ++ [path]
  resolutions :=
    if t.resolutions.any fun r => r.name == name && sameOrigin r.origin origin then t.resolutions
    else t.resolutions ++ [⟨name, origin, path⟩]

abbrev Linking := StateT Trail (Except Failure)

mutual

-- Puts the nodes of included templates in the place of their references.
def splice (included : String → Linking (List Node)) : Node → Linking (List Node)
  | .including name _ => included name
  | .choice branches none => do
    return [.choice (← spliceBranches included branches) none]
  | .choice branches (some body) => do
    let branches ← spliceBranches included branches
    return [.choice branches (some (← spliceAll included body))]
  | .loop kind header body => do
    return [.loop kind header (← spliceAll included body)]
  | .block name body => do
    return [.block name (← spliceAll included body)]
  | node => return [node]

def spliceAll (included : String → Linking (List Node)) : List Node → Linking (List Node)
  | [] => return []
  | node :: nodes => do
    let here ← splice included node
    return here ++ (← spliceAll included nodes)

def spliceBranches (included : String → Linking (List Node)) :
    List (Branch Node) → Linking (List (Branch Node))
  | [] => return []
  | ⟨condition, body⟩ :: branches => do
    let body ← spliceAll included body
    return ⟨condition, body⟩ :: (← spliceBranches included branches)

end

-- The files that are not on a stack.
def unvisited (h : Host) (stack : List Path) : List Location :=
  h.tree.files.filter fun l => !stack.any (·.same l.path)

theorem Path.same_self (p : Path) : p.same p = true := by simp [Path.same]

theorem mem_files_of_textAt {h : Host} {l : Location} {s : String} (hs : h.textAt l = .ok s) :
    l ∈ h.tree.files := by
  unfold Host.textAt at hs
  split at hs
  · next content changed he =>
    have hm : (l, Entry.file content changed) ∈ h.tree.entries := by
      unfold FileTree.entry? at he
      obtain ⟨a, b, hab, -⟩ := List.lookup_eq_some_iff.1 he
      simp [hab]
    exact List.mem_map.2 ⟨_, List.mem_filter.2 ⟨hm, rfl⟩, rfl⟩
  · cases hs
  · split at hs <;> cases hs

-- Entering a readable file that is not on the stack leaves fewer files unvisited.
theorem length_unvisited_lt {h : Host} {stack : List Path} {l : Location} {s : String}
    (hl : ¬stack.any (·.same l.path) = true) (hs : h.textAt l = .ok s) :
    (unvisited h (stack ++ [l.path])).length < (unvisited h stack).length := by
  have hm : l ∈ unvisited h stack := by
    simp only [unvisited, List.mem_filter]
    exact ⟨mem_files_of_textAt hs, by simpa using hl⟩
  have hsub : (unvisited h (stack ++ [l.path])).Sublist (unvisited h stack) := by
    have he : unvisited h (stack ++ [l.path])
        = (unvisited h stack).filter fun k => !l.path.same k.path := by
      simp only [unvisited, List.filter_filter]
      congr 1
      funext k
      simp [List.any_append, Bool.and_comm]
    rw [he]
    exact List.filter_sublist
  have hne : unvisited h (stack ++ [l.path]) ≠ unvisited h stack := by
    intro heq
    rw [← heq] at hm
    simp [unvisited, Path.same_self] at hm
  exact Nat.lt_of_le_of_ne hsub.length_le fun hlen => hne (hsub.eq_of_length hlen)

-- A compiler: the filters that templates may use, and where and how it finds them.
structure Compiler where
  registry : Registry
  options : Options

def readSource (c : Compiler) (source : String) : Except Fault (List Node) :=
  let stripped := Markup.stripScripts source.toList
  match Markup.read stripped with
  | .error e => .error (.malformed e.line e.fault.message)
  | .ok nodes => settleAll c.registry c.options.autoEscape stripped nodes

-- The place of a template that another one names, which is noted.
def follow (c : Compiler) (h : Host) (name : String) (origin : Option Path) : Linking Location :=
  match locate c.options h name origin with
  | .error searched => throw ⟨origin, .templateNotFound name searched⟩
  | .ok l => do
    modify fun t => t.record name origin l.path
    return l

-- A text to be joined while the templates on a stack wait for it. Its file is not one of them.
abbrev Opened (h : Host) (stack : List Path) (l : Location) :=
  { _text : String // (unvisited h (stack ++ [l.path])).length < (unvisited h stack).length }

-- The text of the file at a place, unless the file is on the stack already.
def openFile (h : Host) (stack : List Path) (l : Location) : Except Failure (Opened h stack l) :=
  if hl : stack.any (·.same l.path) then
    .error ⟨some l.path, .circular l.path (stack ++ [l.path])⟩
  else
    match hs : h.textAt l with
    | .error fault => .error ⟨some l.path, .unreadable l.path fault.message⟩
    | .ok text => .ok ⟨text, length_unvisited_lt hl hs⟩

-- The nodes of a template with all that it includes and extends.
def link (c : Compiler) (h : Host) (stack : List Path) (source : String) (path : Option Path) :
    Linking (List Node) :=
  let included (name : String) : Linking (List Node) := do
    let l ← follow c h name path
    let text ← liftExcept (openFile h stack l)
    have := text.property
    link c h (stack ++ [l.path]) text.val (some l.path)
  match readSource c source with
  | .error fault => throw ⟨path, fault⟩
  | .ok nodes =>
    match base? none nodes with
    | .error e => throw ⟨path, .malformed e.line e.fault.message⟩
    | .ok none => spliceAll included nodes
    | .ok (some base) => do
      let blocks ← spliceAll included (topBlocksOf nodes)
      return mergeAll (blockBodiesOf blocks) (← included base)
termination_by (unvisited h stack).length

structure Compiled where
  program : Program
  dependencies : List Path
  resolutions : List Resolution

def Compiled.code (r : Compiled) : String := r.program.code

-- Compiles a text. The path is the file it came from, if any.
def compile (c : Compiler) (h : Host) (source : String) (path : Option Path) : Except Failure Compiled :=
  let origin := path.map h.absolute
  match (link c h origin.toList source origin).run .empty with
  | .error failure => .error failure
  | .ok (nodes, trail) => .ok ⟨.ofNodes nodes, trail.dependencies, trail.resolutions⟩

end TemplateEngine.Compile
