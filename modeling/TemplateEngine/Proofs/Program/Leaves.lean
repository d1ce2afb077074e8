import TemplateEngine.Compile.Inheritance

-- The leaves of a program: the nodes with no other nodes in them, at any depth. What templates do to
-- the trees of other templates moves leaves around and adds none.
namespace TemplateEngine

private theorem append_subset_append {α : Type} {xs ys xs' ys' : List α} (h : xs ⊆ xs') (h' : ys ⊆ ys') :
    xs ++ ys ⊆ xs' ++ ys' :=
  List.append_subset.mpr
    ⟨List.subset_append_of_subset_left _ h, List.subset_append_of_subset_right _ h'⟩

namespace Node

mutual

def leaves : Node → List Node
  | .choice branches none => leavesOfBranches branches
  | .choice branches (some body) => leavesOfBranches branches ++ leavesOf body
  | .loop _ _ body => leavesOf body
  | .block _ body => leavesOf body
  | node => [node]

def leavesOf : List Node → List Node
  | [] => []
  | node :: nodes => leaves node ++ leavesOf nodes

def leavesOfBranches : List (Branch Node) → List Node
  | [] => []
  | ⟨_, body⟩ :: branches => leavesOf body ++ leavesOfBranches branches

end

@[simp] theorem leavesOf_append (nodes others : List Node) :
    leavesOf (nodes ++ others) = leavesOf nodes ++ leavesOf others := by
  induction nodes with
  | nil => simp [leavesOf]
  | cons node nodes ih => simp [leavesOf, ih]

@[simp] theorem leavesOf_singleton (node : Node) : leavesOf [node] = leaves node := by simp [leavesOf]

mutual

theorem leaves_findBlock {name : String} {found : List Node} :
    ∀ {node : Node}, findBlock name node = some found → leavesOf found ⊆ leaves node
  | .choice branches none, h => by
    rw [findBlock] at h
    rw [leaves]
    exact leaves_findBlockInBranches h
  | .choice branches (some body), h => by
    rw [findBlock, Option.or_eq_some_iff] at h
    rw [leaves]
    rcases h with h | ⟨-, h⟩
    · exact List.subset_append_of_subset_left _ (leaves_findBlockInBranches h)
    · exact List.subset_append_of_subset_right _ (leaves_findBlockIn h)
  | .loop kind header body, h => by
    rw [findBlock] at h
    rw [leaves]
    exact leaves_findBlockIn h
  | .block other body, h => by
    rw [findBlock] at h
    rw [leaves]
    split at h
    · cases h
      exact List.Subset.refl _
    · exact leaves_findBlockIn h
  | .text _, h | .echo _ _ _, h | .parent, h | .extending _ _, h | .including _ _, h => by
    simp [findBlock] at h

theorem leaves_findBlockIn {name : String} {found : List Node} :
    ∀ {nodes : List Node}, findBlockIn name nodes = some found → leavesOf found ⊆ leavesOf nodes
  | [], h => by simp [findBlockIn] at h
  | node :: nodes, h => by
    rw [findBlockIn, Option.or_eq_some_iff] at h
    rw [leavesOf]
    rcases h with h | ⟨-, h⟩
    · exact List.subset_append_of_subset_left _ (leaves_findBlock h)
    · exact List.subset_append_of_subset_right _ (leaves_findBlockIn h)

theorem leaves_findBlockInBranches {name : String} {found : List Node} :
    ∀ {branches : List (Branch Node)},
      findBlockInBranches name branches = some found → leavesOf found ⊆ leavesOfBranches branches
  | [], h => by simp [findBlockInBranches] at h
  | ⟨condition, body⟩ :: branches, h => by
    rw [findBlockInBranches, Option.or_eq_some_iff] at h
    rw [leavesOfBranches]
    rcases h with h | ⟨-, h⟩
    · exact List.subset_append_of_subset_left _ (leaves_findBlockIn h)
    · exact List.subset_append_of_subset_right _ (leaves_findBlockInBranches h)

end

end Node

namespace Compile

open Node

mutual

theorem leaves_topBlocks : ∀ node : Node, leavesOf (topBlocks node) ⊆ leaves node
  | .choice branches none => by
    rw [topBlocks, leaves]
    exact leaves_topBlocksOfBranches branches
  | .choice branches (some body) => by
    rw [topBlocks, leaves, leavesOf_append]
    exact append_subset_append (leaves_topBlocksOfBranches branches) (leaves_topBlocksOf body)
  | .loop kind header body => by
    rw [topBlocks, leaves]
    exact leaves_topBlocksOf body
  | .block name body => by simp [topBlocks]
  | .text _ | .echo _ _ _ | .parent | .extending _ _ | .including _ _ => by simp [topBlocks, leavesOf]

theorem leaves_topBlocksOf : ∀ nodes : List Node, leavesOf (topBlocksOf nodes) ⊆ leavesOf nodes
  | [] => by simp [topBlocksOf]
  | node :: nodes => by
    rw [topBlocksOf, leavesOf, leavesOf_append]
    exact append_subset_append (leaves_topBlocks node) (leaves_topBlocksOf nodes)

theorem leaves_topBlocksOfBranches :
    ∀ branches : List (Branch Node), leavesOf (topBlocksOfBranches branches) ⊆ leavesOfBranches branches
  | [] => by simp [topBlocksOfBranches, leavesOf]
  | ⟨condition, body⟩ :: branches => by
    rw [topBlocksOfBranches, leavesOfBranches, leavesOf_append]
    exact append_subset_append (leaves_topBlocksOf body) (leaves_topBlocksOfBranches branches)

end

def Overrides.leaves (overrides : Overrides) : List Node := overrides.flatMap fun o => leavesOf o.2

theorem leavesOf_lookup {overrides : Overrides} {name : String} {body : List Node}
    (h : overrides.lookup name = some body) : leavesOf body ⊆ overrides.leaves := by
  obtain ⟨front, back, hsplit, -⟩ := List.lookup_eq_some_iff.mp h
  intro leaf hleaf
  exact List.mem_flatMap.mpr ⟨(name, body), by simp [hsplit], hleaf⟩

mutual

theorem leaves_blockBodies : ∀ node : Node, (blockBodies node).leaves ⊆ leaves node
  | .block name body => by
    have h := leaves_blockBodiesOf body
    simp only [blockBodies, Overrides.leaves, List.flatMap_cons, leaves] at h ⊢
    exact List.append_subset.mpr ⟨List.Subset.refl _, h⟩
  | .choice _ none | .choice _ (some _) | .loop _ _ _ | .text _ | .echo _ _ _ | .parent
  | .extending _ _ | .including _ _ => by simp [blockBodies, Overrides.leaves]

theorem leaves_blockBodiesOf : ∀ nodes : List Node, (blockBodiesOf nodes).leaves ⊆ leavesOf nodes
  | [] => by simp [blockBodiesOf, Overrides.leaves]
  | node :: nodes => by
    have h := leaves_blockBodies node
    have hs := leaves_blockBodiesOf nodes
    simp only [blockBodiesOf, Overrides.leaves, List.flatMap_append, leavesOf] at h hs ⊢
    exact append_subset_append h hs

end

variable {p : Node → Prop}

mutual

theorem leaves_fillSlots {base : List Node} (hbase : ∀ n ∈ leavesOf base, p n) :
    ∀ {node : Node}, (∀ n ∈ leaves node, p n) → ∀ n ∈ leavesOf (fillSlots base node), p n
  | .parent, _ => by rwa [fillSlots]
  | .block name body, h => by
    rw [leaves] at h
    rw [fillSlots]
    split
    · next inner hinner =>
      rw [leavesOf_singleton, leaves]
      exact leaves_fillSlotsOf (fun n hn => hbase n (leaves_findBlockIn hinner hn)) h
    · rwa [leavesOf_singleton, leaves]
  | .choice branches none, h => by
    rw [leaves] at h
    rw [fillSlots, leavesOf_singleton, leaves]
    exact leaves_fillSlotsOfBranches hbase h
  | .choice branches (some body), h => by
    rw [leaves, List.forall_mem_append] at h
    rw [fillSlots, leavesOf_singleton, leaves, List.forall_mem_append]
    exact ⟨leaves_fillSlotsOfBranches hbase h.1, leaves_fillSlotsOf hbase h.2⟩
  | .loop kind header body, h => by
    rw [leaves] at h
    rw [fillSlots, leavesOf_singleton, leaves]
    exact leaves_fillSlotsOf hbase h
  | .text _, h | .echo _ _ _, h | .extending _ _, h | .including _ _, h => by
    simpa [fillSlots] using h

theorem leaves_fillSlotsOf {base : List Node} (hbase : ∀ n ∈ leavesOf base, p n) :
    ∀ {nodes : List Node}, (∀ n ∈ leavesOf nodes, p n) → ∀ n ∈ leavesOf (fillSlotsOf base nodes), p n
  | [], _ => by simp [fillSlotsOf, leavesOf]
  | node :: nodes, h => by
    rw [leavesOf, List.forall_mem_append] at h
    rw [fillSlotsOf, leavesOf_append, List.forall_mem_append]
    exact ⟨leaves_fillSlots hbase h.1, leaves_fillSlotsOf hbase h.2⟩

theorem leaves_fillSlotsOfBranches {base : List Node} (hbase : ∀ n ∈ leavesOf base, p n) :
    ∀ {branches : List (Branch Node)}, (∀ n ∈ leavesOfBranches branches, p n) →
      ∀ n ∈ leavesOfBranches (fillSlotsOfBranches base branches), p n
  | [], _ => by simp [fillSlotsOfBranches, leavesOfBranches]
  | ⟨condition, body⟩ :: branches, h => by
    rw [leavesOfBranches, List.forall_mem_append] at h
    rw [fillSlotsOfBranches, leavesOfBranches, List.forall_mem_append]
    exact ⟨leaves_fillSlotsOf hbase h.1, leaves_fillSlotsOfBranches hbase h.2⟩

end

mutual

theorem leaves_merge {overrides : Overrides} (hoverrides : ∀ n ∈ overrides.leaves, p n) :
    ∀ {node : Node}, (∀ n ∈ leaves node, p n) → ∀ n ∈ leaves (merge overrides node), p n
  | .block name body, h => by
    rw [leaves] at h
    rw [merge]
    split
    · next given hgiven =>
      rw [leaves]
      exact leaves_fillSlotsOf h fun n hn => hoverrides n (leavesOf_lookup hgiven hn)
    · rw [leaves]
      exact leaves_mergeAll hoverrides h
  | .choice branches none, h => by
    rw [leaves] at h
    rw [merge, leaves]
    exact leaves_mergeBranches hoverrides h
  | .choice branches (some body), h => by
    rw [leaves, List.forall_mem_append] at h
    rw [merge, leaves, List.forall_mem_append]
    exact ⟨leaves_mergeBranches hoverrides h.1, leaves_mergeAll hoverrides h.2⟩
  | .loop kind header body, h => by
    rw [leaves] at h
    rw [merge, leaves]
    exact leaves_mergeAll hoverrides h
  | .text _, h | .echo _ _ _, h | .parent, h | .extending _ _, h | .including _ _, h => by
    simpa [merge] using h

theorem leaves_mergeAll {overrides : Overrides} (hoverrides : ∀ n ∈ overrides.leaves, p n) :
    ∀ {nodes : List Node}, (∀ n ∈ leavesOf nodes, p n) → ∀ n ∈ leavesOf (mergeAll overrides nodes), p n
  | [], _ => by simp [mergeAll, leavesOf]
  | node :: nodes, h => by
    rw [leavesOf, List.forall_mem_append] at h
    rw [mergeAll, leavesOf, List.forall_mem_append]
    exact ⟨leaves_merge hoverrides h.1, leaves_mergeAll hoverrides h.2⟩

theorem leaves_mergeBranches {overrides : Overrides} (hoverrides : ∀ n ∈ overrides.leaves, p n) :
    ∀ {branches : List (Branch Node)}, (∀ n ∈ leavesOfBranches branches, p n) →
      ∀ n ∈ leavesOfBranches (mergeBranches overrides branches), p n
  | [], _ => by simp [mergeBranches, leavesOfBranches]
  | ⟨condition, body⟩ :: branches, h => by
    rw [leavesOfBranches, List.forall_mem_append] at h
    rw [mergeBranches, leavesOfBranches, List.forall_mem_append]
    exact ⟨leaves_mergeAll hoverrides h.1, leaves_mergeBranches hoverrides h.2⟩

end

end Compile

end TemplateEngine
