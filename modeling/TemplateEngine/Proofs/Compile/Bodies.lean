import TemplateEngine.Proofs.Compile.Merging

-- Giving the blocks of a tree other bodies. A merge does nothing else: it reaches the outermost blocks
-- that have an override, and all around them stays as it is.
namespace TemplateEngine.Compile

mutual

-- Gives a block the body that `f` has for it. Where `f` has none the blocks inside are asked for.
def rebody (f : String → List Node → Option (List Node)) : Node → Node
  | .block name body => .block name ((f name body).getD (rebodyOf f body))
  | .choice branches none => .choice (rebodyOfBranches f branches) none
  | .choice branches (some body) => .choice (rebodyOfBranches f branches) (some (rebodyOf f body))
  | .loop kind header body => .loop kind header (rebodyOf f body)
  | node => node

def rebodyOf (f : String → List Node → Option (List Node)) : List Node → List Node
  | [] => []
  | node :: nodes => rebody f node :: rebodyOf f nodes

def rebodyOfBranches (f : String → List Node → Option (List Node)) :
    List (Branch Node) → List (Branch Node)
  | [] => []
  | ⟨condition, body⟩ :: branches => ⟨condition, rebodyOf f body⟩ :: rebodyOfBranches f branches

end

section Twice

variable {f g : String → List Node → Option (List Node)}

mutual

theorem rebody_rebody (hsame : ∀ name body body', (f name body).isSome = (g name body').isSome) :
    ∀ node : Node, rebody f (rebody g node) = rebody (fun name body => (g name body).bind (f name)) node
  | .block name body => by
    rw [rebody, rebody, rebody]
    have hnames := hsame name ((g name body).getD (rebodyOf g body)) body
    cases hg : g name body with
    | none =>
      rw [hg, Option.isSome_none, Option.isSome_eq_false_iff, Option.isNone_iff_eq_none] at hnames
      simp only [Option.getD_none, Option.bind_none] at hnames ⊢
      rw [hnames, Option.getD_none, rebodyOf_rebodyOf hsame body]
    | some given =>
      rw [hg, Option.isSome_some, Option.isSome_iff_exists] at hnames
      obtain ⟨own, hown⟩ := hnames
      simp only [Option.getD_some, Option.bind_some] at hown ⊢
      rw [hown, Option.getD_some, Option.getD_some]
  | .choice branches none => by
    rw [rebody, rebody, rebody, rebodyOfBranches_rebodyOfBranches hsame branches]
  | .choice branches (some body) => by
    rw [rebody, rebody, rebody, rebodyOfBranches_rebodyOfBranches hsame branches,
      rebodyOf_rebodyOf hsame body]
  | .loop kind header body => by rw [rebody, rebody, rebody, rebodyOf_rebodyOf hsame body]
  | .text _ | .echo _ _ _ | .parent | .extending _ _ | .including _ _ => by simp [rebody]

-- Giving bodies twice, to blocks of the same names, is giving the second ones over the first ones.
theorem rebodyOf_rebodyOf (hsame : ∀ name body body', (f name body).isSome = (g name body').isSome) :
    ∀ nodes : List Node,
      rebodyOf f (rebodyOf g nodes) = rebodyOf (fun name body => (g name body).bind (f name)) nodes
  | [] => by rw [rebodyOf, rebodyOf, rebodyOf]
  | node :: nodes => by
    rw [rebodyOf, rebodyOf, rebodyOf, rebody_rebody hsame node, rebodyOf_rebodyOf hsame nodes]

theorem rebodyOfBranches_rebodyOfBranches
    (hsame : ∀ name body body', (f name body).isSome = (g name body').isSome) :
    ∀ branches : List (Branch Node), rebodyOfBranches f (rebodyOfBranches g branches) =
      rebodyOfBranches (fun name body => (g name body).bind (f name)) branches
  | [] => by rw [rebodyOfBranches, rebodyOfBranches, rebodyOfBranches]
  | ⟨condition, body⟩ :: branches => by
    rw [rebodyOfBranches, rebodyOfBranches, rebodyOfBranches, rebodyOf_rebodyOf hsame body,
      rebodyOfBranches_rebodyOfBranches hsame branches]

end

end Twice

variable (overrides : Overrides)

mutual

theorem merge_eq_rebody : ∀ node : Node,
    merge overrides node = rebody (fun name body => (overrides.lookup name).map (fillSlotsOf body)) node
  | .block name body => by
    rw [merge, rebody]
    cases overrides.lookup name with
    | none => rw [Option.map_none, Option.getD_none, mergeAll_eq_rebodyOf body]
    | some given => rfl
  | .choice branches none => by rw [merge, rebody, mergeBranches_eq_rebodyOfBranches branches]
  | .choice branches (some body) => by
    rw [merge, rebody, mergeBranches_eq_rebodyOfBranches branches, mergeAll_eq_rebodyOf body]
  | .loop kind header body => by rw [merge, rebody, mergeAll_eq_rebodyOf body]
  | .text _ | .echo _ _ _ | .parent | .extending _ _ | .including _ _ => by simp [merge, rebody]

theorem mergeAll_eq_rebodyOf : ∀ nodes : List Node, mergeAll overrides nodes =
    rebodyOf (fun name body => (overrides.lookup name).map (fillSlotsOf body)) nodes
  | [] => by rw [mergeAll, rebodyOf]
  | node :: nodes => by rw [mergeAll, rebodyOf, merge_eq_rebody node, mergeAll_eq_rebodyOf nodes]

theorem mergeBranches_eq_rebodyOfBranches : ∀ branches : List (Branch Node),
    mergeBranches overrides branches =
      rebodyOfBranches (fun name body => (overrides.lookup name).map (fillSlotsOf body)) branches
  | [] => by rw [mergeBranches, rebodyOfBranches]
  | ⟨condition, body⟩ :: branches => by
    rw [mergeBranches, rebodyOfBranches, mergeAll_eq_rebodyOf body,
      mergeBranches_eq_rebodyOfBranches branches]

end

-- Leaves nothing in the blocks that have an override.
def emptied (name : String) (_ : List Node) : Option (List Node) := (overrides.lookup name).map fun _ => []

-- A tree without the bodies of its outermost blocks that have an override, and these bodies.
def hollowOf (nodes : List Node) : List Node := rebodyOf (emptied overrides) nodes

def overridden (bs : Overrides) : Overrides := bs.filter fun b => (overrides.lookup b.1).isSome

def outermostOf (nodes : List Node) : Overrides := overridden overrides (walkedOf overrides nodes)

section Walk

variable {overrides} {f : String → List Node → Option (List Node)}

mutual

theorem walked_rebody (hsame : ∀ name body, (f name body).isSome = (overrides.lookup name).isSome) :
    ∀ node : Node, walked overrides (rebody f node) =
      (walked overrides node).map fun b => (b.1, (f b.1 b.2).getD (rebodyOf f b.2))
  | .block name body => by
    rw [rebody, walked]
    have hname := hsame name body
    cases hf : f name body with
    | none =>
      rw [hf, Option.isSome_none, eq_comm, Option.isSome_eq_false_iff, Option.isNone_iff_eq_none] at hname
      simp [walked, hname, hf, walkedOf_rebodyOf hsame body]
    | some given =>
      rw [hf, Option.isSome_some, eq_comm, Option.isSome_iff_exists] at hname
      obtain ⟨own, hown⟩ := hname
      simp [walked, hown, hf]
  | .choice branches none => by rw [rebody, walked, walked, walkedOfBranches_rebodyOfBranches hsame branches]
  | .choice branches (some body) => by
    rw [rebody, walked, walked, walkedOfBranches_rebodyOfBranches hsame branches,
      walkedOf_rebodyOf hsame body, List.map_append]
  | .loop kind header body => by rw [rebody, walked, walked, walkedOf_rebodyOf hsame body]
  | .text _ | .echo _ _ _ | .parent | .extending _ _ | .including _ _ => by simp [rebody, walked]

-- Giving bodies to the blocks that have an override walks to the blocks that a merge walks to.
theorem walkedOf_rebodyOf (hsame : ∀ name body, (f name body).isSome = (overrides.lookup name).isSome) :
    ∀ nodes : List Node, walkedOf overrides (rebodyOf f nodes) =
      (walkedOf overrides nodes).map fun b => (b.1, (f b.1 b.2).getD (rebodyOf f b.2))
  | [] => by simp [rebodyOf, walkedOf]
  | node :: nodes => by
    rw [rebodyOf, walkedOf, walkedOf, walked_rebody hsame node, walkedOf_rebodyOf hsame nodes,
      List.map_append]

theorem walkedOfBranches_rebodyOfBranches
    (hsame : ∀ name body, (f name body).isSome = (overrides.lookup name).isSome) :
    ∀ branches : List (Branch Node), walkedOfBranches overrides (rebodyOfBranches f branches) =
      (walkedOfBranches overrides branches).map fun b => (b.1, (f b.1 b.2).getD (rebodyOf f b.2))
  | [] => by simp [rebodyOfBranches, walkedOfBranches]
  | ⟨condition, body⟩ :: branches => by
    rw [rebodyOfBranches, walkedOfBranches, walkedOfBranches, walkedOf_rebodyOf hsame body,
      walkedOfBranches_rebodyOfBranches hsame branches, List.map_append]

end

end Walk

section Hollow

variable {overrides}

theorem isSome_emptied (name : String) (body : List Node) :
    (emptied overrides name body).isSome = (overrides.lookup name).isSome := Option.isSome_map

theorem overridden_append (bs cs : Overrides) :
    overridden overrides (bs ++ cs) = overridden overrides bs ++ overridden overrides cs :=
  List.filter_append ..

-- Whether a block has an override depends on its name and not on its body.
theorem overridden_map (f : String × List Node → List Node) (bs : Overrides) :
    overridden overrides (bs.map fun b => (b.1, f b)) =
      (overridden overrides bs).map fun b => (b.1, f b) := by
  rw [overridden, List.filter_map]
  rfl

theorem length_overridden_eq {bs cs : Overrides} {f : String × List Node → List Node}
    (h : bs.map (fun b => (b.1, f b)) = cs.map fun b => (b.1, f b)) :
    (overridden overrides bs).length = (overridden overrides cs).length := by
  have hmapped := congrArg (overridden overrides) h
  rw [overridden_map, overridden_map] at hmapped
  simpa using congrArg List.length hmapped

mutual

-- Two nodes that are hollow in the same way are one if their outermost overridden blocks have the same
-- bodies. Being hollow in the same way they have as many of these in each part.
theorem hollow_inj : ∀ {a b : Node}, rebody (emptied overrides) a = rebody (emptied overrides) b →
    overridden overrides (walked overrides a) = overridden overrides (walked overrides b) → a = b
  | .block name body, b, h, hout => by
    cases b with
    | block name' body' =>
      rw [rebody, rebody, Node.block.injEq] at h
      obtain ⟨rfl, hbody⟩ := h
      rw [walked, walked] at hout
      cases hname : overrides.lookup name with
      | none =>
        simp only [emptied, hname, Option.map_none, Option.getD_none] at hbody
        simp only [overridden, List.filter_cons, hname, Option.isSome_none, Bool.false_eq_true,
          if_false] at hout
        rw [hollowOf_inj hbody hout]
      | some given => simpa [overridden, hname] using hout
    | choice branches otherwise => cases otherwise <;> simp [rebody] at h
    | _ => simp [rebody] at h
  | .choice branches none, b, h, hout => by
    cases b with
    | choice branches' otherwise' =>
      cases otherwise' with
      | none =>
        rw [rebody, rebody, Node.choice.injEq] at h
        rw [walked, walked] at hout
        rw [hollowOfBranches_inj h.1 hout]
      | some body' => simp [rebody] at h
    | _ => simp [rebody] at h
  | .choice branches (some body), b, h, hout => by
    cases b with
    | choice branches' otherwise' =>
      cases otherwise' with
      | none => simp [rebody] at h
      | some body' =>
        rw [rebody, rebody, Node.choice.injEq, Option.some.injEq] at h
        rw [walked, walked, overridden_append, overridden_append] at hout
        obtain ⟨hbranches, hbody⟩ := List.append_inj hout <| length_overridden_eq <| by
          rw [← walkedOfBranches_rebodyOfBranches isSome_emptied,
            ← walkedOfBranches_rebodyOfBranches isSome_emptied, h.1]
        rw [hollowOfBranches_inj h.1 hbranches, hollowOf_inj h.2 hbody]
    | _ => simp [rebody] at h
  | .loop kind header body, b, h, hout => by
    cases b with
    | loop kind' header' body' =>
      rw [rebody, rebody, Node.loop.injEq] at h
      obtain ⟨rfl, rfl, hbody⟩ := h
      rw [walked, walked] at hout
      rw [hollowOf_inj hbody hout]
    | choice branches otherwise => cases otherwise <;> simp [rebody] at h
    | _ => simp [rebody] at h
  | .text _, b, h, _ | .echo _ _ _, b, h, _ | .parent, b, h, _ | .extending _ _, b, h, _
  | .including _ _, b, h, _ => by
    cases b with
    | choice branches otherwise => cases otherwise <;> simp [rebody] at h
    | _ => simp_all [rebody]

theorem hollowOf_inj : ∀ {nodes others : List Node},
    rebodyOf (emptied overrides) nodes = rebodyOf (emptied overrides) others →
    overridden overrides (walkedOf overrides nodes) = overridden overrides (walkedOf overrides others) →
    nodes = others
  | [], [], _, _ => rfl
  | [], _ :: _, h, _ | _ :: _, [], h, _ => by simp [rebodyOf] at h
  | a :: nodes, b :: others, h, hout => by
    rw [rebodyOf, rebodyOf, List.cons.injEq] at h
    rw [walkedOf, walkedOf, overridden_append, overridden_append] at hout
    obtain ⟨hnode, hnodes⟩ := List.append_inj hout <| length_overridden_eq <| by
      rw [← walked_rebody isSome_emptied, ← walked_rebody isSome_emptied, h.1]
    rw [hollow_inj h.1 hnode, hollowOf_inj h.2 hnodes]

theorem hollowOfBranches_inj : ∀ {branches others : List (Branch Node)},
    rebodyOfBranches (emptied overrides) branches = rebodyOfBranches (emptied overrides) others →
    overridden overrides (walkedOfBranches overrides branches) =
      overridden overrides (walkedOfBranches overrides others) → branches = others
  | [], [], _, _ => rfl
  | [], _ :: _, h, _ | _ :: _, [], h, _ => by simp [rebodyOfBranches] at h
  | ⟨condition, body⟩ :: branches, ⟨condition', body'⟩ :: others, h, hout => by
    rw [rebodyOfBranches, rebodyOfBranches, List.cons.injEq, Branch.mk.injEq] at h
    obtain ⟨⟨rfl, hbody⟩, hbranches⟩ := h
    rw [walkedOfBranches, walkedOfBranches, overridden_append, overridden_append] at hout
    obtain ⟨hhere, hrest⟩ := List.append_inj hout <| length_overridden_eq <| by
      rw [← walkedOf_rebodyOf isSome_emptied, ← walkedOf_rebodyOf isSome_emptied, hbody]
    rw [hollowOf_inj hbody hhere, hollowOfBranches_inj hbranches hrest]

end

end Hollow

-- Merging leaves a base as it is but for the bodies of its outermost blocks that have an override. A
-- tree is hollow like the base, with the merged bodies in these blocks, just if it is the merged one.
theorem hollowOf_mergeAll (nodes : List Node) :
    hollowOf overrides (mergeAll overrides nodes) = hollowOf overrides nodes ∧
      ∀ merged, merged = mergeAll overrides nodes ↔
        hollowOf overrides merged = hollowOf overrides nodes ∧
          outermostOf overrides merged =
            (outermostOf overrides nodes).map fun b => (b.1, mergedBody overrides b) := by
  have hhollow : hollowOf overrides (mergeAll overrides nodes) = hollowOf overrides nodes := by
    rw [hollowOf, hollowOf, mergeAll_eq_rebodyOf, rebodyOf_rebodyOf]
    · congr 1
      funext name body
      cases hname : overrides.lookup name <;> simp [emptied, hname]
    · intro name body body'
      rw [isSome_emptied, Option.isSome_map]
  have hbodies : outermostOf overrides (mergeAll overrides nodes) =
      (outermostOf overrides nodes).map fun b => (b.1, mergedBody overrides b) := by
    rw [outermostOf, outermostOf, walkedOf_mergeAll, overridden_map]
  refine ⟨hhollow, fun merged => ⟨?_, fun ⟨hframe, hfilled⟩ => ?_⟩⟩
  · rintro rfl
    exact ⟨hhollow, hbodies⟩
  · exact hollowOf_inj (hframe.trans hhollow.symm) (hfilled.trans hbodies.symm)

end TemplateEngine.Compile
