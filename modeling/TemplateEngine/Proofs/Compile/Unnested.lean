import TemplateEngine.Proofs.Compile.Bodies
import TemplateEngine.Proofs.Compile.Slots

-- Trees without a block inside a block. What such templates give to the blocks of one another, through
-- any number of them, is worked out block by block.
namespace TemplateEngine.Compile

open Node

mutual

theorem length_standings (covered : Bool) : ∀ node : Node,
    (standings covered node).length = blockCount node
  | .block name body => by rw [standings, blockCount, List.length_cons, length_standingsOf covered body]
  | .choice branches none => by rw [standings, blockCount, length_standingsOfBranches branches]
  | .choice branches (some body) => by
    rw [standings, blockCount, List.length_append, length_standingsOfBranches branches,
      length_standingsOf true body]
  | .loop kind header body => by rw [standings, blockCount, length_standingsOf true body]
  | .text _ | .echo _ _ _ | .parent | .extending _ _ | .including _ _ => by simp [standings, blockCount]

theorem length_standingsOf (covered : Bool) : ∀ nodes : List Node,
    (standingsOf covered nodes).length = blockCountOf nodes
  | [] => by rw [standingsOf, blockCountOf, List.length_nil]
  | node :: nodes => by
    rw [standingsOf, blockCountOf, List.length_append, length_standings covered node,
      length_standingsOf covered nodes]

theorem length_standingsOfBranches : ∀ branches : List (Branch Node),
    (standingsOfBranches branches).length = blockCountOfBranches branches
  | [] => by rw [standingsOfBranches, blockCountOfBranches, List.length_nil]
  | ⟨condition, body⟩ :: branches => by
    rw [standingsOfBranches, blockCountOfBranches, List.length_append, length_standingsOf true body,
      length_standingsOfBranches branches]

end

theorem standingsOf_eq_nil {covered : Bool} {nodes : List Node} (h : blockCountOf nodes = 0) :
    standingsOf covered nodes = [] := by
  rw [← List.length_eq_zero_iff, length_standingsOf, h]

mutual

-- Where there are no blocks every slot is that of the block around all.
theorem slotPaths_eq_nil : ∀ {node : Node}, blockCount node = 0 → ∀ path ∈ slotPaths node, path = []
  | .block name body, h => by simp [blockCount] at h
  | .choice branches none, h => by
    rw [blockCount] at h
    rw [slotPaths]
    exact slotPathsOfBranches_eq_nil h
  | .choice branches (some body), h => by
    rw [blockCount, Nat.add_eq_zero_iff] at h
    rw [slotPaths, List.forall_mem_append]
    exact ⟨slotPathsOfBranches_eq_nil h.1, slotPathsOf_eq_nil h.2⟩
  | .loop kind header body, h => by
    rw [blockCount] at h
    rw [slotPaths]
    exact slotPathsOf_eq_nil h
  | .text _, _ | .echo _ _ _, _ | .parent, _ | .extending _ _, _ | .including _ _, _ => by simp [slotPaths]

theorem slotPathsOf_eq_nil : ∀ {nodes : List Node}, blockCountOf nodes = 0 →
    ∀ path ∈ slotPathsOf nodes, path = []
  | [], _ => by simp [slotPathsOf]
  | node :: nodes, h => by
    rw [blockCountOf, Nat.add_eq_zero_iff] at h
    rw [slotPathsOf, List.forall_mem_append]
    exact ⟨slotPaths_eq_nil h.1, slotPathsOf_eq_nil h.2⟩

theorem slotPathsOfBranches_eq_nil : ∀ {branches : List (Branch Node)}, blockCountOfBranches branches = 0 →
    ∀ path ∈ slotPathsOfBranches branches, path = []
  | [], _ => by simp [slotPathsOfBranches]
  | ⟨condition, body⟩ :: branches, h => by
    rw [blockCountOfBranches, Nat.add_eq_zero_iff] at h
    rw [slotPathsOfBranches, List.forall_mem_append]
    exact ⟨slotPathsOf_eq_nil h.1, slotPathsOfBranches_eq_nil h.2⟩

end

theorem fillSlotsOf_eq_fillByOf {given : List Node} (h : blockCountOf given = 0) (base : List Node) :
    fillSlotsOf base given = fillByOf (fun _ => base) given := by
  rw [fillSlotsOf_eq_fillBy, fillByOf_eq_iff]
  intro path hpath
  rw [slotPathsOf_eq_nil h path hpath]
  rfl

theorem blockCountOf_append (nodes others : List Node) :
    blockCountOf (nodes ++ others) = blockCountOf nodes + blockCountOf others := by
  induction nodes with
  | nil => rw [List.nil_append, blockCountOf, Nat.zero_add]
  | cons node nodes ih => rw [List.cons_append, blockCountOf, blockCountOf, ih, Nat.add_assoc]

mutual

theorem blockCountOf_fillBy {base : List Node} (hbase : blockCountOf base = 0) :
    ∀ {node : Node}, blockCount node = 0 → blockCountOf (fillBy (fun _ => base) node) = 0
  | .parent, _ => by rwa [fillBy]
  | .block name body, h => by simp [blockCount] at h
  | .choice branches none, h => by
    rw [blockCount] at h
    simp [fillBy, blockCountOf, blockCount, blockCountOfBranches_fillByOfBranches hbase h]
  | .choice branches (some body), h => by
    rw [blockCount, Nat.add_eq_zero_iff] at h
    simp [fillBy, blockCountOf, blockCount, blockCountOfBranches_fillByOfBranches hbase h.1,
      blockCountOf_fillByOf hbase h.2]
  | .loop kind header body, h => by
    rw [blockCount] at h
    simp [fillBy, blockCountOf, blockCount, blockCountOf_fillByOf hbase h]
  | .text _, _ | .echo _ _ _, _ | .extending _ _, _ | .including _ _, _ => by
    simp [fillBy, blockCountOf, blockCount]

theorem blockCountOf_fillByOf {base : List Node} (hbase : blockCountOf base = 0) :
    ∀ {nodes : List Node}, blockCountOf nodes = 0 → blockCountOf (fillByOf (fun _ => base) nodes) = 0
  | [], _ => by rw [fillByOf, blockCountOf]
  | node :: nodes, h => by
    rw [blockCountOf, Nat.add_eq_zero_iff] at h
    rw [fillByOf, blockCountOf_append, blockCountOf_fillBy hbase h.1, blockCountOf_fillByOf hbase h.2]

theorem blockCountOfBranches_fillByOfBranches {base : List Node} (hbase : blockCountOf base = 0) :
    ∀ {branches : List (Branch Node)}, blockCountOfBranches branches = 0 →
      blockCountOfBranches (fillByOfBranches (fun _ => base) branches) = 0
  | [], _ => by rw [fillByOfBranches, blockCountOfBranches]
  | ⟨condition, body⟩ :: branches, h => by
    rw [blockCountOfBranches, Nat.add_eq_zero_iff] at h
    rw [fillByOfBranches, blockCountOfBranches, blockCountOf_fillByOf hbase h.1,
      blockCountOfBranches_fillByOfBranches hbase h.2]

end

section Rebodied

variable {f g : String → List Node → Option (List Node)}

mutual

theorem rebody_congr (covered : Bool) : ∀ {node : Node},
    (∀ b ∈ standings covered node,
      (f b.name b.body).getD (rebodyOf f b.body) = (g b.name b.body).getD (rebodyOf g b.body)) →
    rebody f node = rebody g node
  | .block name body, h => by
    rw [standings, List.forall_mem_cons] at h
    rw [rebody, rebody, h.1]
  | .choice branches none, h => by
    rw [standings] at h
    rw [rebody, rebody, rebodyOfBranches_congr h]
  | .choice branches (some body), h => by
    rw [standings, List.forall_mem_append] at h
    rw [rebody, rebody, rebodyOfBranches_congr h.1, rebodyOf_congr true h.2]
  | .loop kind header body, h => by
    rw [standings] at h
    rw [rebody, rebody, rebodyOf_congr true h]
  | .text _, _ | .echo _ _ _, _ | .parent, _ | .extending _ _, _ | .including _ _, _ => by simp [rebody]

-- Trees given bodies in two ways are one if every block is left with the same body.
theorem rebodyOf_congr (covered : Bool) : ∀ {nodes : List Node},
    (∀ b ∈ standingsOf covered nodes,
      (f b.name b.body).getD (rebodyOf f b.body) = (g b.name b.body).getD (rebodyOf g b.body)) →
    rebodyOf f nodes = rebodyOf g nodes
  | [], _ => by rw [rebodyOf, rebodyOf]
  | node :: nodes, h => by
    rw [standingsOf, List.forall_mem_append] at h
    rw [rebodyOf, rebodyOf, rebody_congr covered h.1, rebodyOf_congr covered h.2]

theorem rebodyOfBranches_congr : ∀ {branches : List (Branch Node)},
    (∀ b ∈ standingsOfBranches branches,
      (f b.name b.body).getD (rebodyOf f b.body) = (g b.name b.body).getD (rebodyOf g b.body)) →
    rebodyOfBranches f branches = rebodyOfBranches g branches
  | [], _ => by rw [rebodyOfBranches, rebodyOfBranches]
  | ⟨condition, body⟩ :: branches, h => by
    rw [standingsOfBranches, List.forall_mem_append] at h
    rw [rebodyOfBranches, rebodyOfBranches, rebodyOf_congr true h.1, rebodyOfBranches_congr h.2]

end

mutual

theorem rebody_own : ∀ node : Node, rebody (fun _ body => some body) node = node
  | .block name body => by rw [rebody, Option.getD_some]
  | .choice branches none => by rw [rebody, rebodyOfBranches_own branches]
  | .choice branches (some body) => by rw [rebody, rebodyOfBranches_own branches, rebodyOf_own body]
  | .loop kind header body => by rw [rebody, rebodyOf_own body]
  | .text _ | .echo _ _ _ | .parent | .extending _ _ | .including _ _ => by simp [rebody]

theorem rebodyOf_own : ∀ nodes : List Node, rebodyOf (fun _ body => some body) nodes = nodes
  | [] => by rw [rebodyOf]
  | node :: nodes => by rw [rebodyOf, rebody_own node, rebodyOf_own nodes]

theorem rebodyOfBranches_own : ∀ branches : List (Branch Node),
    rebodyOfBranches (fun _ body => some body) branches = branches
  | [] => by rw [rebodyOfBranches]
  | ⟨condition, body⟩ :: branches => by
    rw [rebodyOfBranches, rebodyOf_own body, rebodyOfBranches_own branches]

end

theorem rebodyOf_of_blockless {nodes : List Node} (h : blockCountOf nodes = 0) :
    rebodyOf f nodes = nodes := by
  have hown : rebodyOf f nodes = rebodyOf (fun _ body => some body) nodes := by
    refine rebodyOf_congr false fun b hb => ?_
    rw [standingsOf_eq_nil h] at hb
    cases hb
  rw [hown, rebodyOf_own]

end Rebodied

theorem blockBodiesOf_append (nodes others : List Node) :
    blockBodiesOf (nodes ++ others) = blockBodiesOf nodes ++ blockBodiesOf others := by
  induction nodes with
  | nil => rw [List.nil_append, blockBodiesOf, List.nil_append]
  | cons node nodes ih => rw [List.cons_append, blockBodiesOf, blockBodiesOf, ih, List.append_assoc]

mutual

theorem blockBodiesOf_topBlocks {covered : Bool} : ∀ {node : Node},
    (∀ b ∈ standings covered node, blockCountOf b.body = 0) →
      blockBodiesOf (topBlocks node) = (standings covered node).map fun b => (b.name, b.body)
  | .block name body, h => by
    rw [standings, List.forall_mem_cons] at h
    have hinside : blockBodiesOf body = [] := by
      rw [blockBodiesOf_eq, standingsOf_eq_nil h.1]
      rfl
    rw [topBlocks, standings, standingsOf_eq_nil h.1, blockBodiesOf, blockBodies, hinside]
    rfl
  | .choice branches none, h => by
    rw [standings] at h
    rw [topBlocks, standings, blockBodiesOf_topBlocksOfBranches h]
  | .choice branches (some body), h => by
    rw [standings, List.forall_mem_append] at h
    rw [topBlocks, standings, blockBodiesOf_append, blockBodiesOf_topBlocksOfBranches h.1,
      blockBodiesOf_topBlocksOf h.2, List.map_append]
  | .loop kind header body, h => by
    rw [standings] at h
    rw [topBlocks, standings, blockBodiesOf_topBlocksOf h]
  | .text _, _ | .echo _ _ _, _ | .parent, _ | .extending _ _, _ | .including _ _, _ => by
    simp [topBlocks, standings, blockBodiesOf]

-- What a template gives to the blocks of its base is all its blocks, whatever they stand under.
theorem blockBodiesOf_topBlocksOf {covered : Bool} : ∀ {nodes : List Node},
    (∀ b ∈ standingsOf covered nodes, blockCountOf b.body = 0) →
      blockBodiesOf (topBlocksOf nodes) = (standingsOf covered nodes).map fun b => (b.name, b.body)
  | [], _ => by simp [topBlocksOf, standingsOf, blockBodiesOf]
  | node :: nodes, h => by
    rw [standingsOf, List.forall_mem_append] at h
    rw [topBlocksOf, standingsOf, blockBodiesOf_append, blockBodiesOf_topBlocks h.1,
      blockBodiesOf_topBlocksOf h.2, List.map_append]

theorem blockBodiesOf_topBlocksOfBranches : ∀ {branches : List (Branch Node)},
    (∀ b ∈ standingsOfBranches branches, blockCountOf b.body = 0) →
      blockBodiesOf (topBlocksOfBranches branches) =
        (standingsOfBranches branches).map fun b => (b.name, b.body)
  | [], _ => by simp [topBlocksOfBranches, standingsOfBranches, blockBodiesOf]
  | ⟨condition, body⟩ :: branches, h => by
    rw [standingsOfBranches, List.forall_mem_append] at h
    rw [topBlocksOfBranches, standingsOfBranches, blockBodiesOf_append, blockBodiesOf_topBlocksOf h.1,
      blockBodiesOf_topBlocksOfBranches h.2, List.map_append]

end

section Given

variable {given : String → List Node → List Node}

mutual

theorem standings_rebody (hgiven : ∀ name body, blockCountOf body = 0 → blockCountOf (given name body) = 0)
    {covered : Bool} : ∀ {node : Node}, (∀ b ∈ standings covered node, blockCountOf b.body = 0) →
      standings covered (rebody (fun name body => some (given name body)) node) =
        (standings covered node).map fun b => { b with body := given b.name b.body }
  | .block name body, h => by
    rw [standings, List.forall_mem_cons] at h
    rw [rebody, Option.getD_some, standings, standings, standingsOf_eq_nil h.1,
      standingsOf_eq_nil (hgiven name body h.1)]
    rfl
  | .choice branches none, h => by
    rw [standings] at h
    rw [rebody, standings, standings, standingsOfBranches_rebodyOfBranches hgiven h]
  | .choice branches (some body), h => by
    rw [standings, List.forall_mem_append] at h
    rw [rebody, standings, standings, standingsOfBranches_rebodyOfBranches hgiven h.1,
      standingsOf_rebodyOf hgiven h.2, List.map_append]
  | .loop kind header body, h => by
    rw [standings] at h
    rw [rebody, standings, standings, standingsOf_rebodyOf hgiven h]
  | .text _, _ | .echo _ _ _, _ | .parent, _ | .extending _ _, _ | .including _ _, _ => by
    simp [rebody, standings]

-- A tree that is given bodies without blocks has the blocks that it had, each with its new body.
theorem standingsOf_rebodyOf
    (hgiven : ∀ name body, blockCountOf body = 0 → blockCountOf (given name body) = 0) {covered : Bool} :
    ∀ {nodes : List Node}, (∀ b ∈ standingsOf covered nodes, blockCountOf b.body = 0) →
      standingsOf covered (rebodyOf (fun name body => some (given name body)) nodes) =
        (standingsOf covered nodes).map fun b => { b with body := given b.name b.body }
  | [], _ => by simp [rebodyOf, standingsOf]
  | node :: nodes, h => by
    rw [standingsOf, List.forall_mem_append] at h
    rw [rebodyOf, standingsOf, standingsOf, standings_rebody hgiven h.1, standingsOf_rebodyOf hgiven h.2,
      List.map_append]

theorem standingsOfBranches_rebodyOfBranches
    (hgiven : ∀ name body, blockCountOf body = 0 → blockCountOf (given name body) = 0) :
    ∀ {branches : List (Branch Node)}, (∀ b ∈ standingsOfBranches branches, blockCountOf b.body = 0) →
      standingsOfBranches (rebodyOfBranches (fun name body => some (given name body)) branches) =
        (standingsOfBranches branches).map fun b => { b with body := given b.name b.body }
  | [], _ => by simp [rebodyOfBranches, standingsOfBranches]
  | ⟨condition, body⟩ :: branches, h => by
    rw [standingsOfBranches, List.forall_mem_append] at h
    rw [rebodyOfBranches, standingsOfBranches, standingsOfBranches, standingsOf_rebodyOf hgiven h.1,
      standingsOfBranches_rebodyOfBranches hgiven h.2, List.map_append]

end

end Given

-- Whether no block stands inside another one.
def Unnested (nodes : List Node) : Prop := ∀ b ∈ standingsOf false nodes, blockCountOf b.body = 0

variable {nodes base tree root : List Node} {heirs : List (List Node)} {name : String}

theorem Unnested.lookup_topBlocksOf (h : Unnested nodes) (name : String) :
    (blockBodiesOf (topBlocksOf nodes)).lookup name = findBlockIn name nodes := by
  have hlookup : ∀ bs : List Standing, (bs.map fun b => (b.name, b.body)).lookup name =
      (bs.find? fun b => b.name == name).map (·.body) := by
    intro bs
    induction bs with
    | nil => rfl
    | cons b bs ih =>
      rw [List.map_cons, List.lookup_cons, List.find?_cons, ih, BEq.comm]
      cases b.name == name <;> rfl
  rw [blockBodiesOf_topBlocksOf h, hlookup, findBlockIn_eq]

theorem Unnested.blockless_of_findBlockIn (h : Unnested nodes) (hname : findBlockIn name nodes = some tree) :
    blockCountOf tree = 0 := by
  rw [findBlockIn_eq name false, Option.map_eq_some_iff] at hname
  obtain ⟨b, hb, rfl⟩ := hname
  exact h b (List.mem_of_find?_eq_some hb)

-- The body that the block of a name has in the end. It starts with what the root of a chain of templates
-- has for it. Each template that extends the one before, the youngest first in the list, may give
-- another body, in which the body so far stands in place of each slot.
def inherited (name : String) (body : List Node) : List (List Node) → List Node
  | [] => body
  | tree :: older =>
    match findBlockIn name tree with
    | some given => fillByOf (fun _ => inherited name body older) given
    | none => inherited name body older

theorem blockCountOf_inherited (hheirs : ∀ tree ∈ heirs, Unnested tree) {body : List Node}
    (hbody : blockCountOf body = 0) : blockCountOf (inherited name body heirs) = 0 := by
  induction heirs with
  | nil => exact hbody
  | cons tree older ih =>
    rw [List.forall_mem_cons] at hheirs
    have holder := ih hheirs.2
    rw [inherited]
    cases hgiven : findBlockIn name tree with
    | none => exact holder
    | some given => exact blockCountOf_fillByOf holder (hheirs.1.blockless_of_findBlockIn hgiven)

-- The nodes of a template that extends others, from its tree and theirs.
def joined (root : List Node) : List (List Node) → List Node
  | [] => root
  | tree :: older => mergeAll (blockBodiesOf (topBlocksOf tree)) (joined root older)

theorem Unnested.mergeAll_eq {overrides : Overrides} (h : Unnested nodes) :
    mergeAll overrides nodes = rebodyOf (fun name body =>
      some (match overrides.lookup name with
        | some given => fillSlotsOf body given
        | none => body)) nodes := by
  rw [mergeAll_eq_rebodyOf]
  refine rebodyOf_congr false fun b hb => ?_
  cases overrides.lookup b.name with
  | none => simp [rebodyOf_of_blockless (h b hb)]
  | some given => rfl

-- Merging one template after the other gives each block of the root the body it inherits.
theorem joined_eq (hroot : Unnested root) (hheirs : ∀ tree ∈ heirs, Unnested tree) :
    joined root heirs = rebodyOf (fun name body => some (inherited name body heirs)) root := by
  induction heirs with
  | nil => exact (rebodyOf_own root).symm
  | cons tree older ih =>
    rw [List.forall_mem_cons] at hheirs
    have hbase := ih hheirs.2
    have hunnested : Unnested (joined root older) := by
      rw [hbase, Unnested, standingsOf_rebodyOf (fun _ _ => blockCountOf_inherited hheirs.2) hroot,
        List.forall_mem_map]
      exact fun b hb => blockCountOf_inherited hheirs.2 (hroot b hb)
    rw [joined, hunnested.mergeAll_eq, hbase, rebodyOf_rebodyOf]
    · congr 1
      funext name body
      rw [Option.bind_some, inherited, hheirs.1.lookup_topBlocksOf]
      cases hgiven : findBlockIn name tree with
      | none => rfl
      | some given => simp only [fillSlotsOf_eq_fillByOf (hheirs.1.blockless_of_findBlockIn hgiven)]
    · exact fun _ _ _ => rfl

-- A template that wraps a body, over one that says it twice.
example : inherited "a" [.text "A"] [[.block "a" [.text "(", .parent, .text ")"]],
    [.block "a" [.parent, .parent]]] = [.text "(", .text "A", .text "A", .text ")"] := rfl

theorem standingsOf_joined (hroot : Unnested root) (hheirs : ∀ tree ∈ heirs, Unnested tree) :
    standingsOf false (joined root heirs) =
      (standingsOf false root).map fun b => { b with body := inherited b.name b.body heirs } := by
  rw [joined_eq hroot hheirs, standingsOf_rebodyOf (fun _ _ => blockCountOf_inherited hheirs) hroot]

end TemplateEngine.Compile
