import TemplateEngine.Compile.Inheritance

-- Which body each parent slot of an overriding body gets. A slot belongs to the blocks around it. The
-- body for it is looked for along these, each block in the body found for the one around it, so a block
-- that the base does not have keeps the slots of all blocks inside it from being filled.
namespace TemplateEngine.Compile

open Node

variable {f g : List String → List Node}

mutual

-- The blocks around each slot of a node, the outermost first.
def slotPaths : Node → List (List String)
  | .parent => [[]]
  | .block name body => (slotPathsOf body).map (name :: ·)
  | .choice branches none => slotPathsOfBranches branches
  | .choice branches (some body) => slotPathsOfBranches branches ++ slotPathsOf body
  | .loop _ _ body => slotPathsOf body
  | _ => []

def slotPathsOf : List Node → List (List String)
  | [] => []
  | node :: nodes => slotPaths node ++ slotPathsOf nodes

def slotPathsOfBranches : List (Branch Node) → List (List String)
  | [] => []
  | ⟨_, body⟩ :: branches => slotPathsOf body ++ slotPathsOfBranches branches

end

mutual

-- Fills each slot with what `f` gives for the blocks around it.
def fillBy (f : List String → List Node) : Node → List Node
  | .parent => f []
  | .block name body => [.block name (fillByOf (fun path => f (name :: path)) body)]
  | .choice branches none => [.choice (fillByOfBranches f branches) none]
  | .choice branches (some body) => [.choice (fillByOfBranches f branches) (some (fillByOf f body))]
  | .loop kind header body => [.loop kind header (fillByOf f body)]
  | node => [node]

def fillByOf (f : List String → List Node) : List Node → List Node
  | [] => []
  | node :: nodes => fillBy f node ++ fillByOf f nodes

def fillByOfBranches (f : List String → List Node) : List (Branch Node) → List (Branch Node)
  | [] => []
  | ⟨condition, body⟩ :: branches => ⟨condition, fillByOf f body⟩ :: fillByOfBranches f branches

end

-- The body found by looking for each block in the body of the one before.
def bodyAlong? (base : List Node) : List String → Option (List Node)
  | [] => some base
  | name :: path => (findBlockIn name base).bind (bodyAlong? · path)

-- The body of the block that a slot belongs to, wherever the base has it.
def ownBody? (base : List Node) (path : List String) : Option (List Node) :=
  match path.getLast? with
  | none => some base
  | some name => findBlockIn name base

-- What stands in place of a slot. One without a body stays.
def orSlot (body : Option (List Node)) : List Node := body.getD [.parent]

mutual

theorem fillBy_slot : ∀ node : Node, fillBy (fun _ => [.parent]) node = [node]
  | .parent => rfl
  | .block name body => by rw [fillBy, fillByOf_slot body]
  | .choice branches none => by rw [fillBy, fillByOfBranches_slot branches]
  | .choice branches (some body) => by rw [fillBy, fillByOfBranches_slot branches, fillByOf_slot body]
  | .loop kind header body => by rw [fillBy, fillByOf_slot body]
  | .text _ | .echo _ _ _ | .extending _ _ | .including _ _ => by simp [fillBy]

theorem fillByOf_slot : ∀ nodes : List Node, fillByOf (fun _ => [.parent]) nodes = nodes
  | [] => by rw [fillByOf]
  | node :: nodes => by rw [fillByOf, fillBy_slot node, fillByOf_slot nodes, List.singleton_append]

theorem fillByOfBranches_slot : ∀ branches : List (Branch Node),
    fillByOfBranches (fun _ => [.parent]) branches = branches
  | [] => by rw [fillByOfBranches]
  | ⟨condition, body⟩ :: branches => by
    rw [fillByOfBranches, fillByOf_slot body, fillByOfBranches_slot branches]

end

mutual

theorem fillSlots_eq_fillBy (base : List Node) : ∀ node : Node,
    fillSlots base node = fillBy (fun path => orSlot (bodyAlong? base path)) node
  | .parent => rfl
  | .block name body => by
    rw [fillSlots, fillBy]
    cases hfound : findBlockIn name base with
    | none =>
      have hstay : (fun path => orSlot (bodyAlong? base (name :: path))) = fun _ => [.parent] := by
        funext path
        rw [bodyAlong?, hfound]
        rfl
      rw [hstay, fillByOf_slot]
    | some inner =>
      have hinner : (fun path => orSlot (bodyAlong? base (name :: path))) =
          fun path => orSlot (bodyAlong? inner path) := by
        funext path
        rw [bodyAlong?, hfound, Option.bind_some]
      rw [hinner]
      simp only [fillSlotsOf_eq_fillBy inner body]
  | .choice branches none => by rw [fillSlots, fillBy, fillSlotsOfBranches_eq_fillBy base branches]
  | .choice branches (some body) => by
    rw [fillSlots, fillBy, fillSlotsOfBranches_eq_fillBy base branches, fillSlotsOf_eq_fillBy base body]
  | .loop kind header body => by rw [fillSlots, fillBy, fillSlotsOf_eq_fillBy base body]
  | .text _ | .echo _ _ _ | .extending _ _ | .including _ _ => by simp [fillSlots, fillBy]

theorem fillSlotsOf_eq_fillBy (base : List Node) : ∀ nodes : List Node,
    fillSlotsOf base nodes = fillByOf (fun path => orSlot (bodyAlong? base path)) nodes
  | [] => by rw [fillSlotsOf, fillByOf]
  | node :: nodes => by
    rw [fillSlotsOf, fillByOf, fillSlots_eq_fillBy base node, fillSlotsOf_eq_fillBy base nodes]

theorem fillSlotsOfBranches_eq_fillBy (base : List Node) : ∀ branches : List (Branch Node),
    fillSlotsOfBranches base branches = fillByOfBranches (fun path => orSlot (bodyAlong? base path)) branches
  | [] => by rw [fillSlotsOfBranches, fillByOfBranches]
  | ⟨condition, body⟩ :: branches => by
    rw [fillSlotsOfBranches, fillByOfBranches, fillSlotsOf_eq_fillBy base body,
      fillSlotsOfBranches_eq_fillBy base branches]

end

-- A node that is no slot stays one node, so only the slots right here count for the length.
theorem length_fillBy_le (hle : (f []).length ≤ (g []).length) : ∀ node : Node,
    (fillBy f node).length ≤ (fillBy g node).length
  | .parent => hle
  | .block _ _ | .choice _ none | .choice _ (some _) | .loop _ _ _ | .text _ | .echo _ _ _
  | .extending _ _ | .including _ _ => by simp [fillBy]

theorem length_fillByOf_le (hle : (f []).length ≤ (g []).length) (nodes : List Node) :
    (fillByOf f nodes).length ≤ (fillByOf g nodes).length := by
  induction nodes with
  | nil => simp [fillByOf]
  | cons node nodes ih =>
    rw [fillByOf, fillByOf, List.length_append, List.length_append]
    exact Nat.add_le_add (length_fillBy_le hle node) ih

-- Slots side by side get one body, so lists that are equal when they are filled are equal node by node.
theorem fillByOf_cons_inj {node : Node} {nodes : List Node}
    (h : fillByOf f (node :: nodes) = fillByOf g (node :: nodes)) :
    fillBy f node = fillBy g node ∧ fillByOf f nodes = fillByOf g nodes := by
  rw [fillByOf, fillByOf] at h
  have hlength := congrArg List.length h
  rw [List.length_append, List.length_append] at hlength
  refine List.append_inj h ?_
  rcases Nat.le_total (f []).length (g []).length with hle | hle
  · have hnode := length_fillBy_le hle node
    have hnodes := length_fillByOf_le hle nodes
    omega
  · have hnode := length_fillBy_le hle node
    have hnodes := length_fillByOf_le hle nodes
    omega

mutual

theorem fillBy_eq_iff : ∀ (f g : List String → List Node) (node : Node),
    fillBy f node = fillBy g node ↔ ∀ path ∈ slotPaths node, f path = g path
  | f, g, .parent => by simp [fillBy, slotPaths]
  | f, g, .block name body => by
    simpa [fillBy, slotPaths] using
      fillByOf_eq_iff (fun path => f (name :: path)) (fun path => g (name :: path)) body
  | f, g, .choice branches none => by
    simpa [fillBy, slotPaths] using fillByOfBranches_eq_iff f g branches
  | f, g, .choice branches (some body) => by
    simp [fillBy, slotPaths, fillByOfBranches_eq_iff f g branches, fillByOf_eq_iff f g body, or_imp,
      forall_and]
  | f, g, .loop kind header body => by simpa [fillBy, slotPaths] using fillByOf_eq_iff f g body
  | f, g, .text _ | f, g, .echo _ _ _ | f, g, .extending _ _ | f, g, .including _ _ => by
    simp [fillBy, slotPaths]

theorem fillByOf_eq_iff : ∀ (f g : List String → List Node) (nodes : List Node),
    fillByOf f nodes = fillByOf g nodes ↔ ∀ path ∈ slotPathsOf nodes, f path = g path
  | f, g, [] => by simp [fillByOf, slotPathsOf]
  | f, g, node :: nodes => by
    rw [slotPathsOf, List.forall_mem_append, ← fillBy_eq_iff f g node, ← fillByOf_eq_iff f g nodes]
    refine ⟨fillByOf_cons_inj, fun ⟨hnode, hnodes⟩ => ?_⟩
    rw [fillByOf, fillByOf, hnode, hnodes]

theorem fillByOfBranches_eq_iff : ∀ (f g : List String → List Node) (branches : List (Branch Node)),
    fillByOfBranches f branches = fillByOfBranches g branches ↔
      ∀ path ∈ slotPathsOfBranches branches, f path = g path
  | f, g, [] => by simp [fillByOfBranches, slotPathsOfBranches]
  | f, g, ⟨condition, body⟩ :: branches => by
    simp [fillByOfBranches, slotPathsOfBranches, fillByOf_eq_iff f g body,
      fillByOfBranches_eq_iff f g branches, or_imp, forall_and]

end

theorem bodyAlong?_of_length_le {base : List Node} {path : List String} (hpath : path.length ≤ 1) :
    bodyAlong? base path = ownBody? base path := by
  rcases path with _ | ⟨name, _ | ⟨next, path⟩⟩
  · rfl
  · simp [bodyAlong?, ownBody?]
  · simp at hpath

-- The search for a body ends at the first block that is not in the body found for the one around it.
theorem bodyAlong?_eq_none_iff (path : List String) : ∀ base : List Node,
    bodyAlong? base path = none ↔ ∃ front name back inner, path = front ++ name :: back ∧
      bodyAlong? base front = some inner ∧ findBlockIn name inner = none := by
  induction path with
  | nil => simp [bodyAlong?]
  | cons first path ih =>
    intro base
    rw [bodyAlong?]
    constructor
    · intro hnone
      cases hfound : findBlockIn first base with
      | none => exact ⟨[], first, path, base, rfl, rfl, hfound⟩
      | some inner =>
        rw [hfound, Option.bind_some, ih] at hnone
        obtain ⟨front, name, back, last, rfl, hlast, hmissing⟩ := hnone
        refine ⟨first :: front, name, back, last, rfl, ?_, hmissing⟩
        rwa [bodyAlong?, hfound]
    · rintro ⟨_ | ⟨next, front⟩, name, back, last, hpath, hlast, hmissing⟩
      · obtain ⟨rfl, rfl⟩ := List.cons.inj hpath
        obtain rfl := Option.some.inj hlast
        rw [hmissing, Option.bind_none]
      · obtain ⟨rfl, rfl⟩ := List.cons.inj hpath
        rw [bodyAlong?] at hlast
        obtain ⟨inner, hfound, hlast⟩ := Option.bind_eq_some_iff.mp hlast
        rw [hfound, Option.bind_some, ih]
        exact ⟨front, name, back, last, rfl, hlast, hmissing⟩

-- Filling puts into each slot the body that is found along the blocks around it, and a slot stays where
-- the search ends before its own block. This is the body that the base has for the slot's own block just
-- where the two are the same for each slot, and so wherever no slot stands in a block inside another one.
theorem fillSlotsOf_eq_own_iff (base nodes : List Node) :
    fillSlotsOf base nodes = fillByOf (fun path => orSlot (bodyAlong? base path)) nodes ∧
      (∀ path, bodyAlong? base path = none ↔ ∃ front name back inner, path = front ++ name :: back ∧
        bodyAlong? base front = some inner ∧ findBlockIn name inner = none) ∧
      (fillSlotsOf base nodes = fillByOf (fun path => orSlot (ownBody? base path)) nodes ↔
        ∀ path ∈ slotPathsOf nodes, orSlot (bodyAlong? base path) = orSlot (ownBody? base path)) ∧
      ((∀ path ∈ slotPathsOf nodes, path.length ≤ 1) →
        fillSlotsOf base nodes = fillByOf (fun path => orSlot (ownBody? base path)) nodes) := by
  have hfill := fillSlotsOf_eq_fillBy base nodes
  have hiff : fillSlotsOf base nodes = fillByOf (fun path => orSlot (ownBody? base path)) nodes ↔
      ∀ path ∈ slotPathsOf nodes, orSlot (bodyAlong? base path) = orSlot (ownBody? base path) := by
    rw [hfill]
    exact fillByOf_eq_iff _ _ nodes
  refine ⟨hfill, fun path => bodyAlong?_eq_none_iff path base, hiff, fun hshort => hiff.mpr ?_⟩
  intro path hpath
  rw [bodyAlong?_of_length_le (hshort path hpath)]

-- The slot of a block that the base has, inside one that it does not have. It is not filled.
example :
    fillSlotsOf [.block "c" [.text "C"]] [.block "b" [.block "c" [.parent]]] =
        [.block "b" [.block "c" [.parent]]] ∧
      ownBody? [.block "c" [.text "C"]] ["b", "c"] = some [.text "C"] :=
  ⟨rfl, rfl⟩

end TemplateEngine.Compile
