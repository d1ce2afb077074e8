import TemplateEngine.Proofs.Compile.Overrides

-- Merging and the blocks inside overridden blocks. A parent slot of an overriding body stands for the
-- body that the base gives to the block. Merging puts that body in as the base has it, so the blocks
-- in it keep the bodies they have there. The merge below puts it in merged, at any depth.
namespace TemplateEngine.Compile

open Node

variable {overrides : Overrides} {dress dress' : List Node → List Node}

mutual

-- Like the filling of slots, but each body is dressed before it goes in.
def fillSlotsVia (dress : List Node → List Node) (base : List Node) : Node → List Node
  | .parent => dress base
  | .block name body =>
    match findBlockIn name base with
    | some inner => [.block name (fillSlotsOfVia dress inner body)]
    | none => [.block name body]
  | .choice branches none => [.choice (fillSlotsOfBranchesVia dress base branches) none]
  | .choice branches (some body) =>
    [.choice (fillSlotsOfBranchesVia dress base branches) (some (fillSlotsOfVia dress base body))]
  | .loop kind header body => [.loop kind header (fillSlotsOfVia dress base body)]
  | node => [node]

def fillSlotsOfVia (dress : List Node → List Node) (base : List Node) : List Node → List Node
  | [] => []
  | node :: nodes => fillSlotsVia dress base node ++ fillSlotsOfVia dress base nodes

def fillSlotsOfBranchesVia (dress : List Node → List Node) (base : List Node) :
    List (Branch Node) → List (Branch Node)
  | [] => []
  | ⟨condition, body⟩ :: branches =>
    ⟨condition, fillSlotsOfVia dress base body⟩ :: fillSlotsOfBranchesVia dress base branches

end

mutual

def mergeVia (dress : List Node → List Node) (overrides : Overrides) : Node → Node
  | .block name body =>
    match overrides.lookup name with
    | some given => .block name (fillSlotsOfVia dress body given)
    | none => .block name (mergeAllVia dress overrides body)
  | .choice branches none => .choice (mergeBranchesVia dress overrides branches) none
  | .choice branches (some body) =>
    .choice (mergeBranchesVia dress overrides branches) (some (mergeAllVia dress overrides body))
  | .loop kind header body => .loop kind header (mergeAllVia dress overrides body)
  | node => node

def mergeAllVia (dress : List Node → List Node) (overrides : Overrides) : List Node → List Node
  | [] => []
  | node :: nodes => mergeVia dress overrides node :: mergeAllVia dress overrides nodes

def mergeBranchesVia (dress : List Node → List Node) (overrides : Overrides) :
    List (Branch Node) → List (Branch Node)
  | [] => []
  | ⟨condition, body⟩ :: branches =>
    ⟨condition, mergeAllVia dress overrides body⟩ :: mergeBranchesVia dress overrides branches

end

mutual

-- The bodies that go in for the slots, once for each slot.
def fillings (base : List Node) : Node → List (List Node)
  | .parent => [base]
  | .block name body =>
    match findBlockIn name base with
    | some inner => fillingsOf inner body
    | none => []
  | .choice branches none => fillingsOfBranches base branches
  | .choice branches (some body) => fillingsOfBranches base branches ++ fillingsOf base body
  | .loop _ _ body => fillingsOf base body
  | _ => []

def fillingsOf (base : List Node) : List Node → List (List Node)
  | [] => []
  | node :: nodes => fillings base node ++ fillingsOf base nodes

def fillingsOfBranches (base : List Node) : List (Branch Node) → List (List Node)
  | [] => []
  | ⟨_, body⟩ :: branches => fillingsOf base body ++ fillingsOfBranches base branches

end

mutual

def pieces (overrides : Overrides) : Node → List (List Node)
  | .block name body =>
    match overrides.lookup name with
    | some given => fillingsOf body given
    | none => piecesOf overrides body
  | .choice branches none => piecesOfBranches overrides branches
  | .choice branches (some body) => piecesOfBranches overrides branches ++ piecesOf overrides body
  | .loop _ _ body => piecesOf overrides body
  | _ => []

def piecesOf (overrides : Overrides) : List Node → List (List Node)
  | [] => []
  | node :: nodes => pieces overrides node ++ piecesOf overrides nodes

def piecesOfBranches (overrides : Overrides) : List (Branch Node) → List (List Node)
  | [] => []
  | ⟨_, body⟩ :: branches => piecesOf overrides body ++ piecesOfBranches overrides branches

end

mutual

theorem fillSlots_eq_via (base : List Node) : ∀ node : Node, fillSlots base node = fillSlotsVia id base node
  | .parent => rfl
  | .block name body => by
    rw [fillSlots, fillSlotsVia]
    cases findBlockIn name base with
    | none => rfl
    | some inner => simp only [fillSlotsOf_eq_via inner body]
  | .choice branches none => by rw [fillSlots, fillSlotsVia, fillSlotsOfBranches_eq_via base branches]
  | .choice branches (some body) => by
    rw [fillSlots, fillSlotsVia, fillSlotsOfBranches_eq_via base branches, fillSlotsOf_eq_via base body]
  | .loop kind header body => by rw [fillSlots, fillSlotsVia, fillSlotsOf_eq_via base body]
  | .text _ | .echo _ _ _ | .extending _ _ | .including _ _ => by simp [fillSlots, fillSlotsVia]

theorem fillSlotsOf_eq_via (base : List Node) :
    ∀ nodes : List Node, fillSlotsOf base nodes = fillSlotsOfVia id base nodes
  | [] => by rw [fillSlotsOf, fillSlotsOfVia]
  | node :: nodes => by
    rw [fillSlotsOf, fillSlotsOfVia, fillSlots_eq_via base node, fillSlotsOf_eq_via base nodes]

theorem fillSlotsOfBranches_eq_via (base : List Node) : ∀ branches : List (Branch Node),
    fillSlotsOfBranches base branches = fillSlotsOfBranchesVia id base branches
  | [] => by rw [fillSlotsOfBranches, fillSlotsOfBranchesVia]
  | ⟨condition, body⟩ :: branches => by
    rw [fillSlotsOfBranches, fillSlotsOfBranchesVia, fillSlotsOf_eq_via base body,
      fillSlotsOfBranches_eq_via base branches]

end

mutual

theorem merge_eq_via (overrides : Overrides) : ∀ node : Node, merge overrides node = mergeVia id overrides node
  | .block name body => by
    rw [merge, mergeVia]
    cases overrides.lookup name with
    | none => simp only [mergeAll_eq_via overrides body]
    | some given => simp only [fillSlotsOf_eq_via]
  | .choice branches none => by rw [merge, mergeVia, mergeBranches_eq_via overrides branches]
  | .choice branches (some body) => by
    rw [merge, mergeVia, mergeBranches_eq_via overrides branches, mergeAll_eq_via overrides body]
  | .loop kind header body => by rw [merge, mergeVia, mergeAll_eq_via overrides body]
  | .text _ | .echo _ _ _ | .parent | .extending _ _ | .including _ _ => by simp [merge, mergeVia]

theorem mergeAll_eq_via (overrides : Overrides) :
    ∀ nodes : List Node, mergeAll overrides nodes = mergeAllVia id overrides nodes
  | [] => by rw [mergeAll, mergeAllVia]
  | node :: nodes => by
    rw [mergeAll, mergeAllVia, merge_eq_via overrides node, mergeAll_eq_via overrides nodes]

theorem mergeBranches_eq_via (overrides : Overrides) : ∀ branches : List (Branch Node),
    mergeBranches overrides branches = mergeBranchesVia id overrides branches
  | [] => by rw [mergeBranches, mergeBranchesVia]
  | ⟨condition, body⟩ :: branches => by
    rw [mergeBranches, mergeBranchesVia, mergeAll_eq_via overrides body,
      mergeBranches_eq_via overrides branches]

end

-- Merging keeps the number of nodes at the top.
theorem length_mergeAllVia (dress : List Node → List Node) (overrides : Overrides) (nodes : List Node) :
    (mergeAllVia dress overrides nodes).length = nodes.length := by
  induction nodes with
  | nil => rw [mergeAllVia]
  | cons node nodes ih => rw [mergeAllVia, List.length_cons, List.length_cons, ih]

-- Two ways to dress bodies that give lists of one length.
def SameLength (dress dress' : List Node → List Node) : Prop :=
  ∀ base, (dress base).length = (dress' base).length

theorem length_fillSlotsVia (hlength : SameLength dress dress') {base : List Node} : ∀ node : Node,
    (fillSlotsVia dress base node).length = (fillSlotsVia dress' base node).length
  | .parent => hlength base
  | .block name body => by
    rw [fillSlotsVia, fillSlotsVia]
    cases findBlockIn name base <;> rfl
  | .choice _ none | .choice _ (some _) | .loop _ _ _ | .text _ | .echo _ _ _ | .extending _ _
  | .including _ _ => by simp [fillSlotsVia]

mutual

-- Two ways to dress give the same just where they dress the bodies that go in alike.
theorem fillSlotsVia_eq_iff (hlength : SameLength dress dress') (base : List Node) : ∀ node : Node,
    fillSlotsVia dress base node = fillSlotsVia dress' base node ↔
      ∀ piece ∈ fillings base node, dress piece = dress' piece
  | .parent => by simp [fillSlotsVia, fillings]
  | .block name body => by
    rw [fillSlotsVia, fillSlotsVia, fillings]
    cases findBlockIn name base with
    | none => simp
    | some inner => simpa using fillSlotsOfVia_eq_iff hlength inner body
  | .choice branches none => by
    simpa [fillSlotsVia, fillings] using fillSlotsOfBranchesVia_eq_iff hlength base branches
  | .choice branches (some body) => by
    simp [fillSlotsVia, fillings, fillSlotsOfBranchesVia_eq_iff hlength base branches,
      fillSlotsOfVia_eq_iff hlength base body, or_imp, forall_and]
  | .loop kind header body => by
    simpa [fillSlotsVia, fillings] using fillSlotsOfVia_eq_iff hlength base body
  | .text _ | .echo _ _ _ | .extending _ _ | .including _ _ => by simp [fillSlotsVia, fillings]

theorem fillSlotsOfVia_eq_iff (hlength : SameLength dress dress') (base : List Node) :
    ∀ nodes : List Node, fillSlotsOfVia dress base nodes = fillSlotsOfVia dress' base nodes ↔
      ∀ piece ∈ fillingsOf base nodes, dress piece = dress' piece
  | [] => by simp [fillSlotsOfVia, fillingsOf]
  | node :: nodes => by
    rw [fillSlotsOfVia, fillSlotsOfVia, fillingsOf, List.forall_mem_append,
      ← fillSlotsVia_eq_iff hlength base node, ← fillSlotsOfVia_eq_iff hlength base nodes]
    -- The fillings of one node are as long either way, so the lists agree node by node.
    exact ⟨fun h => List.append_inj h (length_fillSlotsVia hlength node), fun ⟨h, hs⟩ => by rw [h, hs]⟩

theorem fillSlotsOfBranchesVia_eq_iff (hlength : SameLength dress dress') (base : List Node) :
    ∀ branches : List (Branch Node),
      fillSlotsOfBranchesVia dress base branches = fillSlotsOfBranchesVia dress' base branches ↔
        ∀ piece ∈ fillingsOfBranches base branches, dress piece = dress' piece
  | [] => by simp [fillSlotsOfBranchesVia, fillingsOfBranches]
  | ⟨condition, body⟩ :: branches => by
    simp [fillSlotsOfBranchesVia, fillingsOfBranches, fillSlotsOfVia_eq_iff hlength base body,
      fillSlotsOfBranchesVia_eq_iff hlength base branches, or_imp, forall_and]

end

mutual

theorem mergeVia_eq_iff (hlength : SameLength dress dress') (overrides : Overrides) : ∀ node : Node,
    mergeVia dress overrides node = mergeVia dress' overrides node ↔
      ∀ piece ∈ pieces overrides node, dress piece = dress' piece
  | .block name body => by
    rw [mergeVia, mergeVia, pieces]
    cases overrides.lookup name with
    | none => simpa using mergeAllVia_eq_iff hlength overrides body
    | some given => simpa using fillSlotsOfVia_eq_iff hlength body given
  | .choice branches none => by
    simpa [mergeVia, pieces] using mergeBranchesVia_eq_iff hlength overrides branches
  | .choice branches (some body) => by
    simp [mergeVia, pieces, mergeBranchesVia_eq_iff hlength overrides branches,
      mergeAllVia_eq_iff hlength overrides body, or_imp, forall_and]
  | .loop kind header body => by
    simpa [mergeVia, pieces] using mergeAllVia_eq_iff hlength overrides body
  | .text _ | .echo _ _ _ | .parent | .extending _ _ | .including _ _ => by simp [mergeVia, pieces]

theorem mergeAllVia_eq_iff (hlength : SameLength dress dress') (overrides : Overrides) :
    ∀ nodes : List Node, mergeAllVia dress overrides nodes = mergeAllVia dress' overrides nodes ↔
      ∀ piece ∈ piecesOf overrides nodes, dress piece = dress' piece
  | [] => by simp [mergeAllVia, piecesOf]
  | node :: nodes => by
    rw [mergeAllVia, mergeAllVia, piecesOf, List.forall_mem_append, List.cons.injEq,
      mergeVia_eq_iff hlength overrides node, mergeAllVia_eq_iff hlength overrides nodes]

theorem mergeBranchesVia_eq_iff (hlength : SameLength dress dress') (overrides : Overrides) :
    ∀ branches : List (Branch Node),
      mergeBranchesVia dress overrides branches = mergeBranchesVia dress' overrides branches ↔
        ∀ piece ∈ piecesOfBranches overrides branches, dress piece = dress' piece
  | [] => by simp [mergeBranchesVia, piecesOfBranches]
  | ⟨condition, body⟩ :: branches => by
    simp [mergeBranchesVia, piecesOfBranches, mergeAllVia_eq_iff hlength overrides body,
      mergeBranchesVia_eq_iff hlength overrides branches, or_imp, forall_and]

end

mutual

-- The number of blocks in a node.
def blockCount : Node → Nat
  | .block _ body => blockCountOf body + 1
  | .choice branches none => blockCountOfBranches branches
  | .choice branches (some body) => blockCountOfBranches branches + blockCountOf body
  | .loop _ _ body => blockCountOf body
  | _ => 0

def blockCountOf : List Node → Nat
  | [] => 0
  | node :: nodes => blockCount node + blockCountOf nodes

def blockCountOfBranches : List (Branch Node) → Nat
  | [] => 0
  | ⟨_, body⟩ :: branches => blockCountOf body + blockCountOfBranches branches

end

mutual

theorem blockCount_findBlock {name : String} {found : List Node} :
    ∀ {node : Node}, findBlock name node = some found → blockCountOf found ≤ blockCount node
  | .block other body, h => by
    rw [findBlock] at h
    rw [blockCount]
    split at h
    · cases h
      exact Nat.le_succ _
    · exact Nat.le_trans (blockCount_findBlockIn h) (Nat.le_succ _)
  | .choice branches none, h => by
    rw [findBlock] at h
    rw [blockCount]
    exact blockCount_findBlockInBranches h
  | .choice branches (some body), h => by
    rw [findBlock, Option.or_eq_some_iff] at h
    rw [blockCount]
    rcases h with h | ⟨-, h⟩
    · exact Nat.le_trans (blockCount_findBlockInBranches h) (Nat.le_add_right _ _)
    · exact Nat.le_trans (blockCount_findBlockIn h) (Nat.le_add_left _ _)
  | .loop kind header body, h => by
    rw [findBlock] at h
    rw [blockCount]
    exact blockCount_findBlockIn h
  | .text _, h | .echo _ _ _, h | .parent, h | .extending _ _, h | .including _ _, h => by
    simp [findBlock] at h

theorem blockCount_findBlockIn {name : String} {found : List Node} :
    ∀ {nodes : List Node}, findBlockIn name nodes = some found → blockCountOf found ≤ blockCountOf nodes
  | [], h => by simp [findBlockIn] at h
  | node :: nodes, h => by
    rw [findBlockIn, Option.or_eq_some_iff] at h
    rw [blockCountOf]
    rcases h with h | ⟨-, h⟩
    · exact Nat.le_trans (blockCount_findBlock h) (Nat.le_add_right _ _)
    · exact Nat.le_trans (blockCount_findBlockIn h) (Nat.le_add_left _ _)

theorem blockCount_findBlockInBranches {name : String} {found : List Node} :
    ∀ {branches : List (Branch Node)},
      findBlockInBranches name branches = some found → blockCountOf found ≤ blockCountOfBranches branches
  | [], h => by simp [findBlockInBranches] at h
  | ⟨condition, body⟩ :: branches, h => by
    rw [findBlockInBranches, Option.or_eq_some_iff] at h
    rw [blockCountOfBranches]
    rcases h with h | ⟨-, h⟩
    · exact Nat.le_trans (blockCount_findBlockIn h) (Nat.le_add_right _ _)
    · exact Nat.le_trans (blockCount_findBlockInBranches h) (Nat.le_add_left _ _)

end

mutual

theorem blockCount_fillings {base piece : List Node} :
    ∀ {node : Node}, piece ∈ fillings base node → blockCountOf piece ≤ blockCountOf base
  | .parent, h => by simp_all [fillings]
  | .block name body, h => by
    rw [fillings] at h
    split at h
    · next inner hinner => exact Nat.le_trans (blockCount_fillingsOf h) (blockCount_findBlockIn hinner)
    · cases h
  | .choice branches none, h => by
    rw [fillings] at h
    exact blockCount_fillingsOfBranches h
  | .choice branches (some body), h => by
    rw [fillings, List.mem_append] at h
    exact h.elim blockCount_fillingsOfBranches blockCount_fillingsOf
  | .loop kind header body, h => by
    rw [fillings] at h
    exact blockCount_fillingsOf h
  | .text _, h | .echo _ _ _, h | .extending _ _, h | .including _ _, h => by simp [fillings] at h

theorem blockCount_fillingsOf {base piece : List Node} :
    ∀ {nodes : List Node}, piece ∈ fillingsOf base nodes → blockCountOf piece ≤ blockCountOf base
  | [], h => by simp [fillingsOf] at h
  | node :: nodes, h => by
    rw [fillingsOf, List.mem_append] at h
    exact h.elim blockCount_fillings blockCount_fillingsOf

theorem blockCount_fillingsOfBranches {base piece : List Node} : ∀ {branches : List (Branch Node)},
    piece ∈ fillingsOfBranches base branches → blockCountOf piece ≤ blockCountOf base
  | [], h => by simp [fillingsOfBranches] at h
  | ⟨condition, body⟩ :: branches, h => by
    rw [fillingsOfBranches, List.mem_append] at h
    exact h.elim blockCount_fillingsOf blockCount_fillingsOfBranches

end

mutual

-- A body that goes in for a slot is that of a block or of one inside it, so it has fewer blocks.
theorem blockCount_pieces {piece : List Node} :
    ∀ {node : Node}, piece ∈ pieces overrides node → blockCountOf piece < blockCount node
  | .block name body, h => by
    rw [pieces] at h
    rw [blockCount, Nat.lt_succ_iff]
    split at h
    · exact blockCount_fillingsOf h
    · exact Nat.le_of_lt (blockCount_piecesOf h)
  | .choice branches none, h => by
    rw [pieces] at h
    rw [blockCount]
    exact blockCount_piecesOfBranches h
  | .choice branches (some body), h => by
    rw [pieces, List.mem_append] at h
    rw [blockCount]
    rcases h with h | h
    · exact Nat.lt_of_lt_of_le (blockCount_piecesOfBranches h) (Nat.le_add_right _ _)
    · exact Nat.lt_of_lt_of_le (blockCount_piecesOf h) (Nat.le_add_left _ _)
  | .loop kind header body, h => by
    rw [pieces] at h
    rw [blockCount]
    exact blockCount_piecesOf h
  | .text _, h | .echo _ _ _, h | .parent, h | .extending _ _, h | .including _ _, h => by
    simp [pieces] at h

theorem blockCount_piecesOf {piece : List Node} :
    ∀ {nodes : List Node}, piece ∈ piecesOf overrides nodes → blockCountOf piece < blockCountOf nodes
  | [], h => by simp [piecesOf] at h
  | node :: nodes, h => by
    rw [piecesOf, List.mem_append] at h
    rw [blockCountOf]
    rcases h with h | h
    · exact Nat.lt_of_lt_of_le (blockCount_pieces h) (Nat.le_add_right _ _)
    · exact Nat.lt_of_lt_of_le (blockCount_piecesOf h) (Nat.le_add_left _ _)

theorem blockCount_piecesOfBranches {piece : List Node} : ∀ {branches : List (Branch Node)},
    piece ∈ piecesOfBranches overrides branches → blockCountOf piece < blockCountOfBranches branches
  | [], h => by simp [piecesOfBranches] at h
  | ⟨condition, body⟩ :: branches, h => by
    rw [piecesOfBranches, List.mem_append] at h
    rw [blockCountOfBranches]
    rcases h with h | h
    · exact Nat.lt_of_lt_of_le (blockCount_piecesOf h) (Nat.le_add_right _ _)
    · exact Nat.lt_of_lt_of_le (blockCount_piecesOfBranches h) (Nat.le_add_left _ _)

end

-- Merges, and puts bodies merged to a smaller depth into the slots.
def mergeTo (overrides : Overrides) : Nat → List Node → List Node
  | 0 => id
  | depth + 1 => mergeAllVia (mergeTo overrides depth) overrides

-- Merges, and puts merged bodies into the slots, all the way down.
def mergeDeep (overrides : Overrides) (nodes : List Node) : List Node :=
  mergeTo overrides (blockCountOf nodes + 1) nodes

theorem length_mergeTo (overrides : Overrides) (depth : Nat) (nodes : List Node) :
    (mergeTo overrides depth nodes).length = nodes.length := by
  cases depth with
  | zero => rw [mergeTo, id]
  | succ depth => rw [mergeTo, length_mergeAllVia]

theorem sameLength_mergeTo (depth depth' : Nat) :
    SameLength (mergeTo overrides depth) (mergeTo overrides depth') :=
  fun base => by rw [length_mergeTo, length_mergeTo]

-- More depth than there are blocks adds nothing.
theorem mergeTo_eq {depth depth' : Nat} {nodes : List Node} (h : blockCountOf nodes < depth)
    (h' : blockCountOf nodes < depth') : mergeTo overrides depth nodes = mergeTo overrides depth' nodes := by
  induction depth generalizing depth' nodes with
  | zero => omega
  | succ depth ih =>
    cases depth' with
    | zero => omega
    | succ depth' =>
      rw [mergeTo, mergeTo, mergeAllVia_eq_iff (sameLength_mergeTo depth depth')]
      intro piece hpiece
      have hlt := blockCount_piecesOf hpiece
      exact ih (by omega) (by omega)

theorem length_mergeDeep (overrides : Overrides) (nodes : List Node) :
    (mergeDeep overrides nodes).length = nodes.length := length_mergeTo overrides _ nodes

-- The deep merge is the merge whose slots get bodies that are merged deep.
theorem mergeDeep_eq (overrides : Overrides) (nodes : List Node) :
    mergeDeep overrides nodes = mergeAllVia (mergeDeep overrides) overrides nodes := by
  have hlength : SameLength (mergeTo overrides (blockCountOf nodes)) (mergeDeep overrides) :=
    fun base => by rw [length_mergeTo, length_mergeDeep]
  rw [mergeDeep, mergeTo, mergeAllVia_eq_iff hlength]
  intro piece hpiece
  exact mergeTo_eq (blockCount_piecesOf hpiece) (Nat.lt_succ_self _)

mutual

theorem mergeVia_of_unmet {covered : Bool} : ∀ {node : Node},
    (∀ b ∈ standings covered node, overrides.lookup b.name = none) → mergeVia dress overrides node = node
  | .block name body, h => by
    rw [standings, List.forall_mem_cons] at h
    rw [mergeVia, h.1]
    simp only [mergeAllVia_of_unmet h.2]
  | .choice branches none, h => by
    rw [standings] at h
    rw [mergeVia, mergeBranchesVia_of_unmet h]
  | .choice branches (some body), h => by
    rw [standings, List.forall_mem_append] at h
    rw [mergeVia, mergeBranchesVia_of_unmet h.1, mergeAllVia_of_unmet h.2]
  | .loop kind header body, h => by
    rw [standings] at h
    rw [mergeVia, mergeAllVia_of_unmet h]
  | .text _, _ | .echo _ _ _, _ | .parent, _ | .extending _ _, _ | .including _ _, _ => by simp [mergeVia]

theorem mergeAllVia_of_unmet {covered : Bool} : ∀ {nodes : List Node},
    (∀ b ∈ standingsOf covered nodes, overrides.lookup b.name = none) →
      mergeAllVia dress overrides nodes = nodes
  | [], _ => by rw [mergeAllVia]
  | node :: nodes, h => by
    rw [standingsOf, List.forall_mem_append] at h
    rw [mergeAllVia, mergeVia_of_unmet h.1, mergeAllVia_of_unmet h.2]

theorem mergeBranchesVia_of_unmet : ∀ {branches : List (Branch Node)},
    (∀ b ∈ standingsOfBranches branches, overrides.lookup b.name = none) →
      mergeBranchesVia dress overrides branches = branches
  | [], _ => by rw [mergeBranchesVia]
  | ⟨condition, body⟩ :: branches, h => by
    rw [standingsOfBranches, List.forall_mem_append] at h
    rw [mergeBranchesVia, mergeAllVia_of_unmet h.1, mergeBranchesVia_of_unmet h.2]

end

mutual

-- The blocks of a base that a merge walks to: all that are not inside an overridden one.
def walked (overrides : Overrides) : Node → Overrides
  | .block name body =>
    match overrides.lookup name with
    | some _ => [(name, body)]
    | none => (name, body) :: walkedOf overrides body
  | .choice branches none => walkedOfBranches overrides branches
  | .choice branches (some body) => walkedOfBranches overrides branches ++ walkedOf overrides body
  | .loop _ _ body => walkedOf overrides body
  | _ => []

def walkedOf (overrides : Overrides) : List Node → Overrides
  | [] => []
  | node :: nodes => walked overrides node ++ walkedOf overrides nodes

def walkedOfBranches (overrides : Overrides) : List (Branch Node) → Overrides
  | [] => []
  | ⟨_, body⟩ :: branches => walkedOf overrides body ++ walkedOfBranches overrides branches

end

-- The body that a merge leaves in a block that it walks to.
def mergedBody (overrides : Overrides) (block : String × List Node) : List Node :=
  match overrides.lookup block.1 with
  | some given => fillSlotsOf block.2 given
  | none => mergeAll overrides block.2

mutual

theorem walked_merge (overrides : Overrides) : ∀ node : Node, walked overrides (merge overrides node) =
    (walked overrides node).map fun b => (b.1, mergedBody overrides b)
  | .block name body => by
    rw [merge, walked]
    cases h : overrides.lookup name with
    | none => simp [walked, h, mergedBody, walkedOf_mergeAll overrides body]
    | some given => simp [walked, h, mergedBody]
  | .choice branches none => by rw [merge, walked, walked, walkedOfBranches_mergeBranches overrides branches]
  | .choice branches (some body) => by
    rw [merge, walked, walked, walkedOfBranches_mergeBranches overrides branches,
      walkedOf_mergeAll overrides body, List.map_append]
  | .loop kind header body => by rw [merge, walked, walked, walkedOf_mergeAll overrides body]
  | .text _ | .echo _ _ _ | .parent | .extending _ _ | .including _ _ => by simp [merge, walked]

theorem walkedOf_mergeAll (overrides : Overrides) : ∀ nodes : List Node,
    walkedOf overrides (mergeAll overrides nodes) =
      (walkedOf overrides nodes).map fun b => (b.1, mergedBody overrides b)
  | [] => by simp [mergeAll, walkedOf]
  | node :: nodes => by
    rw [mergeAll, walkedOf, walkedOf, walked_merge overrides node, walkedOf_mergeAll overrides nodes,
      List.map_append]

theorem walkedOfBranches_mergeBranches (overrides : Overrides) : ∀ branches : List (Branch Node),
    walkedOfBranches overrides (mergeBranches overrides branches) =
      (walkedOfBranches overrides branches).map fun b => (b.1, mergedBody overrides b)
  | [] => by simp [mergeBranches, walkedOfBranches]
  | ⟨condition, body⟩ :: branches => by
    rw [mergeBranches, walkedOfBranches, walkedOfBranches, walkedOf_mergeAll overrides body,
      walkedOfBranches_mergeBranches overrides branches, List.map_append]

end

-- The deep merge puts deep merges into the slots. Merging is the same just where the deep merge leaves
-- each body that goes in for a slot as it is, and so wherever no overridden block stands in such a
-- body. The blocks that are not inside an overridden one carry the body they are given, its slots
-- filled with the body they had.
theorem mergeAll_eq_mergeDeep_iff (overrides : Overrides) (nodes : List Node) :
    mergeDeep overrides nodes = mergeAllVia (mergeDeep overrides) overrides nodes ∧
      (mergeAll overrides nodes = mergeDeep overrides nodes ↔
        ∀ piece ∈ piecesOf overrides nodes, mergeDeep overrides piece = piece) ∧
      ((∀ piece ∈ piecesOf overrides nodes, ∀ b ∈ standingsOf false piece,
          overrides.lookup b.name = none) → mergeAll overrides nodes = mergeDeep overrides nodes) ∧
      walkedOf overrides (mergeAll overrides nodes) =
        (walkedOf overrides nodes).map fun b => (b.1, mergedBody overrides b) := by
  have hlength : SameLength id (mergeDeep overrides) := fun base => by rw [length_mergeDeep, id]
  have hiff : mergeAll overrides nodes = mergeDeep overrides nodes ↔
      ∀ piece ∈ piecesOf overrides nodes, mergeDeep overrides piece = piece := by
    rw [mergeAll_eq_via, mergeDeep_eq, mergeAllVia_eq_iff hlength]
    exact forall₂_congr fun piece _ => eq_comm
  refine ⟨mergeDeep_eq overrides nodes, hiff, fun hunmet => hiff.mpr fun piece hpiece => ?_,
    walkedOf_mergeAll overrides nodes⟩
  rw [mergeDeep_eq, mergeAllVia_of_unmet (hunmet piece hpiece)]

-- Two overrides for blocks inside one another. The slot of the outer one gets the base's body, with
-- the inner block as the base has it.
theorem mergeAll_ne_mergeDeep :
    let overrides : Overrides := [("outer", [.text "<", .parent, .text ">"]), ("inner", [.text "I"])]
    let base := [Node.block "outer" [.text "[", .block "inner" [.text "i"], .text "]"]]
    mergeAll overrides base =
        [.block "outer" [.text "<", .text "[", .block "inner" [.text "i"], .text "]", .text ">"]] ∧
      mergeDeep overrides base =
        [.block "outer" [.text "<", .text "[", .block "inner" [.text "I"], .text "]", .text ">"]] ∧
      mergeAll overrides base ≠ mergeDeep overrides base := by
  intro overrides base
  have hmerge : mergeAll overrides base =
      [.block "outer" [.text "<", .text "[", .block "inner" [.text "i"], .text "]", .text ">"]] := rfl
  have hdeep : mergeDeep overrides base =
      [.block "outer" [.text "<", .text "[", .block "inner" [.text "I"], .text "]", .text ">"]] := rfl
  refine ⟨hmerge, hdeep, ?_⟩
  rw [hmerge, hdeep]
  simp

end TemplateEngine.Compile
