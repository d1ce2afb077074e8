import TemplateEngine.Compile.Inheritance

-- The blocks of a template as its overrides and as the search for a block see them. The search looks
-- into conditions and loops, the overrides do not: a body that a template gives to a block under
-- a condition or a loop counts for the search alone.
namespace TemplateEngine.Compile

open Node

-- A block of a tree. It is covered if it stands under a condition or a loop.
structure Standing where
  name : String
  body : List Node
  covered : Bool

mutual

-- All blocks of a node in the order of the text, each before the ones inside it.
def standings (covered : Bool) : Node → List Standing
  | .block name body => ⟨name, body, covered⟩ :: standingsOf covered body
  | .choice branches none => standingsOfBranches branches
  | .choice branches (some body) => standingsOfBranches branches ++ standingsOf true body
  | .loop _ _ body => standingsOf true body
  | _ => []

def standingsOf (covered : Bool) : List Node → List Standing
  | [] => []
  | node :: nodes => standings covered node ++ standingsOf covered nodes

def standingsOfBranches : List (Branch Node) → List Standing
  | [] => []
  | ⟨_, body⟩ :: branches => standingsOf true body ++ standingsOfBranches branches

end

-- The first block of a name, and the first that is not covered.
def firstStanding? (name : String) (nodes : List Node) : Option Standing :=
  (standingsOf false nodes).find? fun b => b.name == name

def firstOpen? (name : String) (nodes : List Node) : Option Standing :=
  (standingsOf false nodes).find? fun b => b.name == name && !b.covered

mutual

theorem findBlock_eq (name : String) (covered : Bool) : ∀ node : Node,
    findBlock name node = ((standings covered node).find? fun b => b.name == name).map (·.body)
  | .block other body => by
    rw [findBlock, standings, List.find?_cons, findBlockIn_eq name covered body]
    by_cases h : other = name
    · simp [h]
    · rw [if_neg h, beq_false_of_ne h]
  | .choice branches none => by
    rw [findBlock, standings, findBlockInBranches_eq name branches]
  | .choice branches (some body) => by
    rw [findBlock, standings, List.find?_append, Option.map_or, findBlockInBranches_eq name branches,
      findBlockIn_eq name true body]
  | .loop kind header body => by
    rw [findBlock, standings, findBlockIn_eq name true body]
  | .text _ | .echo _ _ _ | .parent | .extending _ _ | .including _ _ => by simp [findBlock, standings]

theorem findBlockIn_eq (name : String) (covered : Bool) : ∀ nodes : List Node,
    findBlockIn name nodes = ((standingsOf covered nodes).find? fun b => b.name == name).map (·.body)
  | [] => by simp [findBlockIn, standingsOf]
  | node :: nodes => by
    rw [findBlockIn, standingsOf, List.find?_append, Option.map_or, findBlock_eq name covered node,
      findBlockIn_eq name covered nodes]

theorem findBlockInBranches_eq (name : String) : ∀ branches : List (Branch Node),
    findBlockInBranches name branches =
      ((standingsOfBranches branches).find? fun b => b.name == name).map (·.body)
  | [] => by simp [findBlockInBranches, standingsOfBranches]
  | ⟨condition, body⟩ :: branches => by
    rw [findBlockInBranches, standingsOfBranches, List.find?_append, Option.map_or,
      findBlockIn_eq name true body, findBlockInBranches_eq name branches]

end

mutual

theorem covered_of_mem_standings : ∀ {node : Node}, ∀ b ∈ standings true node, b.covered = true
  | .block name body => by
    rw [standings, List.forall_mem_cons]
    exact ⟨rfl, covered_of_mem_standingsOf⟩
  | .choice branches none => by
    rw [standings]
    exact covered_of_mem_standingsOfBranches
  | .choice branches (some body) => by
    rw [standings, List.forall_mem_append]
    exact ⟨covered_of_mem_standingsOfBranches, covered_of_mem_standingsOf⟩
  | .loop kind header body => by
    rw [standings]
    exact covered_of_mem_standingsOf
  | .text _ | .echo _ _ _ | .parent | .extending _ _ | .including _ _ => by simp [standings]

theorem covered_of_mem_standingsOf : ∀ {nodes : List Node}, ∀ b ∈ standingsOf true nodes, b.covered = true
  | [] => by simp [standingsOf]
  | node :: nodes => by
    rw [standingsOf, List.forall_mem_append]
    exact ⟨covered_of_mem_standings, covered_of_mem_standingsOf⟩

theorem covered_of_mem_standingsOfBranches :
    ∀ {branches : List (Branch Node)}, ∀ b ∈ standingsOfBranches branches, b.covered = true
  | [] => by simp [standingsOfBranches]
  | ⟨condition, body⟩ :: branches => by
    rw [standingsOfBranches, List.forall_mem_append]
    exact ⟨covered_of_mem_standingsOf, covered_of_mem_standingsOfBranches⟩

end

-- The blocks of a list that are not covered, as overrides.
def openBodies (bs : List Standing) : Overrides :=
  (bs.filter fun b => !b.covered).map fun b => (b.name, b.body)

theorem openBodies_append (bs cs : List Standing) :
    openBodies (bs ++ cs) = openBodies bs ++ openBodies cs := by
  simp [openBodies]

theorem openBodies_of_covered {bs : List Standing} (h : ∀ b ∈ bs, b.covered = true) : openBodies bs = [] := by
  have hnone : bs.filter (fun b => !b.covered) = [] := by
    rw [List.filter_eq_nil_iff]
    intro b hb
    simp [h b hb]
  rw [openBodies, hnone, List.map_nil]

theorem lookup_openBodies (name : String) (bs : List Standing) :
    (openBodies bs).lookup name = (bs.find? fun b => b.name == name && !b.covered).map (·.body) := by
  induction bs with
  | nil => rfl
  | cons b bs ih =>
    obtain ⟨other, body, covered⟩ := b
    cases covered with
    | true => simpa [openBodies] using ih
    | false =>
      by_cases h : other = name
      · simp [openBodies, h]
      · have hne : (name == other) = false := beq_false_of_ne (Ne.symm h)
        simpa [openBodies, List.lookup_cons, h, hne] using ih

mutual

-- The overrides of a tree are its blocks that are not covered.
theorem blockBodies_eq : ∀ node : Node, blockBodies node = openBodies (standings false node)
  | .block name body => by
    rw [blockBodies, standings, blockBodiesOf_eq body]
    rfl
  | .choice branches none => by
    rw [standings, openBodies_of_covered covered_of_mem_standingsOfBranches]
    rfl
  | .choice branches (some body) => by
    rw [standings, openBodies_append, openBodies_of_covered covered_of_mem_standingsOfBranches,
      openBodies_of_covered covered_of_mem_standingsOf]
    rfl
  | .loop kind header body => by
    rw [standings, openBodies_of_covered covered_of_mem_standingsOf]
    rfl
  | .text _ | .echo _ _ _ | .parent | .extending _ _ | .including _ _ => by
    simp [blockBodies, standings, openBodies]

theorem blockBodiesOf_eq : ∀ nodes : List Node, blockBodiesOf nodes = openBodies (standingsOf false nodes)
  | [] => by simp [blockBodiesOf, standingsOf, openBodies]
  | node :: nodes => by
    rw [blockBodiesOf, standingsOf, openBodies_append, blockBodies_eq node, blockBodiesOf_eq nodes]

end

theorem findBlockIn_eq_first (nodes : List Node) (name : String) :
    findBlockIn name nodes = (firstStanding? name nodes).map (·.body) := findBlockIn_eq name false nodes

theorem lookup_blockBodiesOf (nodes : List Node) (name : String) :
    (blockBodiesOf nodes).lookup name = (firstOpen? name nodes).map (·.body) := by
  rw [blockBodiesOf_eq, lookup_openBodies]
  rfl

-- A first block that is not covered is the first of those as well.
theorem firstOpen?_of_open {nodes : List Node} {name : String} {b : Standing}
    (hb : firstStanding? name nodes = some b) (hopen : b.covered = false) :
    firstOpen? name nodes = some b := by
  obtain ⟨hname, before, after, hsplit, hbefore⟩ := List.find?_eq_some_iff_append.mp hb
  refine List.find?_eq_some_iff_append.mpr ⟨by simp [hname, hopen], before, after, hsplit, ?_⟩
  intro c hc
  have hother := hbefore c hc
  simp only [Bool.not_eq_true'] at hother
  simp [hother]

-- A template overrides a block just where it has a block of that name which is not covered, and the
-- search finds one just where it has one at all. The bodies are the same unless the first block of
-- the name is covered and has another body than the first that is not.
theorem overrides_eq_search_iff (nodes : List Node) (name : String) :
    ((blockBodiesOf nodes).lookup name = none ↔
        ∀ b ∈ standingsOf false nodes, b.name = name → b.covered = true) ∧
      (findBlockIn name nodes = none ↔ ∀ b ∈ standingsOf false nodes, b.name ≠ name) ∧
      ((blockBodiesOf nodes).lookup name = findBlockIn name nodes ↔
        ∀ b, firstStanding? name nodes = some b → b.covered = true →
          ∃ c, firstOpen? name nodes = some c ∧ c.body = b.body) := by
  rw [lookup_blockBodiesOf, findBlockIn_eq_first]
  refine ⟨by simp [firstOpen?], by simp [firstStanding?], ?_⟩
  cases hfirst : firstStanding? name nodes with
  | none =>
    have hnone : firstOpen? name nodes = none := by
      simp only [firstStanding?, List.find?_eq_none] at hfirst
      simp only [firstOpen?, List.find?_eq_none]
      intro b hb
      simp [hfirst b hb]
    simp [hnone]
  | some b =>
    by_cases hcovered : b.covered = true
    · simp [hcovered]
    · have hopen := firstOpen?_of_open hfirst (Bool.eq_false_iff.mpr hcovered)
      simp [hopen, hcovered]

-- A block that a template defines inside another one, but under a condition, overrides nothing.
example :
    let nodes := [Node.block "a" [.choice [⟨"true", [.block "b" [.text "X"]]⟩] none]]
    (blockBodiesOf nodes).lookup "b" = none ∧ findBlockIn "b" nodes = some [.text "X"] :=
  ⟨rfl, rfl⟩

end TemplateEngine.Compile
