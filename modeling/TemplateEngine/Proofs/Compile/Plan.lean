import TemplateEngine.Compile.Link
import TemplateEngine.Proofs.Runs

-- What a text has the compiler do, apart from the files around it: the names to follow, one after
-- the other, and how the nodes found under them are put together. Joining templates is then a walk
-- over names.
namespace TemplateEngine.Compile

mutual

def includes : Node → List String
  | .including name _ => [name]
  | .choice branches none => includesOfBranches branches
  | .choice branches (some body) => includesOfBranches branches ++ includesOf body
  | .loop _ _ body => includesOf body
  | .block _ body => includesOf body
  | _ => []

def includesOf : List Node → List String
  | [] => []
  | node :: nodes => includes node ++ includesOf nodes

def includesOfBranches : List (Branch Node) → List String
  | [] => []
  | ⟨_, body⟩ :: branches => includesOf body ++ includesOfBranches branches

end

mutual

-- Puts bodies in the place of the references of a node, in the order of its names.
def plug : Node → List (List Node) → List Node
  | .including _ _, bodies => bodies.headD []
  | .choice branches none, bodies => [.choice (plugBranches branches bodies) none]
  | .choice branches (some body), bodies =>
    [.choice (plugBranches branches (bodies.take (includesOfBranches branches).length))
      (some (plugAll body (bodies.drop (includesOfBranches branches).length)))]
  | .loop kind header body, bodies => [.loop kind header (plugAll body bodies)]
  | .block name body, bodies => [.block name (plugAll body bodies)]
  | node, _ => [node]

def plugAll : List Node → List (List Node) → List Node
  | [], _ => []
  | node :: nodes, bodies =>
    plug node (bodies.take (includes node).length) ++ plugAll nodes (bodies.drop (includes node).length)

def plugBranches : List (Branch Node) → List (List Node) → List (Branch Node)
  | [], _ => []
  | ⟨condition, body⟩ :: branches, bodies =>
    ⟨condition, plugAll body (bodies.take (includesOf body).length)⟩ ::
      plugBranches branches (bodies.drop (includesOf body).length)

end

-- The results of a walk over two lists of names come apart again where the first list ends.
private theorem map_mapM_append {m : Type → Type} [Monad m] [LawfulMonad m] {α β γ : Type}
    (f : α → m β) (xs ys : List α) (combine : List β → List β → γ) :
    (fun zs => combine (zs.take xs.length) (zs.drop xs.length)) <$> (xs ++ ys).mapM f =
      xs.mapM f >>= fun as => ys.mapM f >>= fun bs => pure (combine as bs) := by
  induction xs generalizing combine with
  | nil => simp
  | cons x xs ih =>
    simp only [List.cons_append, List.mapM_cons, map_bind, bind_assoc, pure_bind]
    refine bind_congr fun a => ?_
    have h := ih fun as bs => combine (a :: as) bs
    simpa using h

mutual

theorem splice_eq (f : String → Linking (List Node)) (node : Node) :
    splice f node = plug node <$> (includes node).mapM f := by
  cases node with
  | including name line => simp [splice, includes, plug]
  | choice branches otherwise =>
    cases otherwise with
    | none => simp [splice, includes, plug, spliceBranches_eq f branches]
    | some body =>
      have h := map_mapM_append f (includesOfBranches branches) (includesOf body)
        fun as bs => [Node.choice (plugBranches branches as) (some (plugAll body bs))]
      simp only [splice, includes, plug, spliceBranches_eq f branches, spliceAll_eq f body]
      simpa using h.symm
  | loop kind header body => simp [splice, includes, plug, spliceAll_eq f body]
  | block name body => simp [splice, includes, plug, spliceAll_eq f body]
  | _ => simp [splice, includes, plug]

theorem spliceAll_eq (f : String → Linking (List Node)) (nodes : List Node) :
    spliceAll f nodes = plugAll nodes <$> (includesOf nodes).mapM f := by
  cases nodes with
  | nil => simp [spliceAll, includesOf, plugAll]
  | cons node nodes =>
    have h := map_mapM_append f (includes node) (includesOf nodes)
      fun as bs => plug node as ++ plugAll nodes bs
    simp only [spliceAll, includesOf, plugAll, splice_eq f node, spliceAll_eq f nodes]
    simpa using h.symm

theorem spliceBranches_eq (f : String → Linking (List Node)) (branches : List (Branch Node)) :
    spliceBranches f branches = plugBranches branches <$> (includesOfBranches branches).mapM f := by
  cases branches with
  | nil => simp [spliceBranches, includesOfBranches, plugBranches]
  | cons branch branches =>
    have h := map_mapM_append f (includesOf branch.body) (includesOfBranches branches)
      fun as bs => Branch.mk branch.condition (plugAll branch.body as) :: plugBranches branches bs
    simp only [spliceBranches, includesOfBranches, plugBranches, spliceAll_eq f branch.body,
      spliceBranches_eq f branches]
    simpa using h.symm

end

structure Plan where
  names : List String
  assemble : List (List Node) → List Node

-- The plan of nodes that extend the given base, if any. The base is followed last.
def Plan.ofNodes (nodes : List Node) : Option String → Plan
  | none => ⟨includesOf nodes, plugAll nodes⟩
  | some base =>
    ⟨includesOf (topBlocksOf nodes) ++ [base], fun bodies =>
      mergeAll (blockBodiesOf (plugAll (topBlocksOf nodes) bodies.dropLast)) (bodies.getLastD [])⟩

def plan (c : Compiler) (source : String) : Except Fault Plan :=
  match readSource c source with
  | .error fault => .error fault
  | .ok nodes =>
    match base? none nodes with
    | .error e => .error (.malformed e.line e.fault.message)
    | .ok base => .ok (.ofNodes nodes base)

def linkFile (c : Compiler) (h : Host) (stack : List Path) (l : Location) : Linking (List Node) := do
  let text ← liftExcept (openFile h stack l)
  link c h (stack ++ [l.path]) text.val (some l.path)

def visit (c : Compiler) (h : Host) (stack : List Path) (path : Option Path) (name : String) :
    Linking (List Node) := do
  linkFile c h stack (← follow c h name path)

-- Joining a text is carrying out its plan.
theorem link_eq (c : Compiler) (h : Host) (stack : List Path) (source : String) (path : Option Path) :
    link c h stack source path =
      match plan c source with
      | .error fault => throw ⟨path, fault⟩
      | .ok p => p.assemble <$> p.names.mapM (visit c h stack path) := by
  have hvisit : (fun name => do
      let l ← follow c h name path
      let text ← liftExcept (openFile h stack l)
      link c h (stack ++ [l.path]) text.val (some l.path)) = visit c h stack path := rfl
  rw [link, hvisit, plan]
  cases readSource c source with
  | error fault => rfl
  | ok nodes =>
    simp only
    cases base? none nodes with
    | error e => rfl
    | ok base =>
      cases base with
      | none => simp only [Plan.ofNodes, spliceAll_eq]
      | some name =>
        simp only [Plan.ofNodes, spliceAll_eq, List.mapM_append]
        simp [visit, linkFile]

theorem link_run (c : Compiler) (h : Host) (stack : List Path) (source : String) (path : Option Path)
    (t : Trail) :
    (link c h stack source path).run t =
      match plan c source with
      | .error fault => .error ⟨path, fault⟩
      | .ok p =>
        ((p.names.mapM (visit c h stack path)).run t).map fun (bodies, t') => (p.assemble bodies, t') := by
  rw [link_eq]
  cases plan c source with
  | error fault => rfl
  | ok p => rw [StateT.run_map]; rfl

theorem openFile_eq (h : Host) (stack : List Path) (l : Location) :
    (openFile h stack l).map (·.val) =
      if stack.any (·.same l.path) then .error ⟨some l.path, .circular l.path (stack ++ [l.path])⟩
      else
        match h.textAt l with
        | .error fault => .error ⟨some l.path, .unreadable l.path fault.message⟩
        | .ok text => .ok text := by
  unfold openFile
  split
  · rfl
  · split
    · next fault hs => simp only [hs]; rfl
    · next text hs => simp only [hs]; rfl

private theorem liftExcept_bind_run {α β : Type} (x : Except Failure α) (f : α → Linking β) (t : Trail) :
    (liftExcept x >>= f).run t =
      match x with
      | .error failure => .error failure
      | .ok a => (f a).run t := by
  cases x <;> rfl

theorem linkFile_run (c : Compiler) (h : Host) (stack : List Path) (l : Location) (t : Trail) :
    (linkFile c h stack l).run t =
      if stack.any (·.same l.path) then .error ⟨some l.path, .circular l.path (stack ++ [l.path])⟩
      else
        match h.textAt l with
        | .error fault => .error ⟨some l.path, .unreadable l.path fault.message⟩
        | .ok text => (link c h (stack ++ [l.path]) text (some l.path)).run t := by
  have hfile := openFile_eq h stack l
  unfold linkFile
  rw [liftExcept_bind_run]
  split at hfile
  · next hany =>
    rw [if_pos hany]
    cases hf : openFile h stack l <;> simp_all [Except.map]
  · next hany =>
    rw [if_neg hany]
    cases hf : openFile h stack l <;> cases hs : h.textAt l <;>
      simp_all [Except.map]

theorem visit_run (c : Compiler) (h : Host) (stack : List Path) (path : Option Path) (name : String)
    (t : Trail) :
    (visit c h stack path name).run t =
      match locate c.options h name path with
      | .error searched => .error ⟨path, .templateNotFound name searched⟩
      | .ok l => (linkFile c h stack l).run (t.record name path l.path) := by
  unfold visit follow
  cases locate c.options h name path <;> rfl

end TemplateEngine.Compile
