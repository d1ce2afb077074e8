import TemplateEngine.Proofs.Compile.Locality
import TemplateEngine.Proofs.Compile.References
import TemplateEngine.Proofs.Render.Safe
import Mathlib.Data.List.Forall2

-- Templates that compile give programs that refer to no template and use registered filters only.
-- The filters are settled when a text is read, references are gone once a plan is carried out, and
-- what blocks do to one another afterwards adds no leaves.
namespace TemplateEngine.Compile

open Node

-- How a leaf is settled: an echo of registered filters loses the raw ones and is told whether to
-- escape, and every other leaf stays as it is.
inductive Settles (registry : Registry) (autoEscape : Bool) : Node → Node → Prop where
  | echo {expr : String} {filters : List String} {mark : Bool}
      (hknown : ∀ f ∈ filters, registry.contains f = true) :
      Settles registry autoEscape (.echo expr filters mark)
        (.echo expr (filters.filter (· != "raw")) (escapes autoEscape filters))
  | same {n : Node} (hother : ∀ expr filters mark, n ≠ .echo expr filters mark) :
      Settles registry autoEscape n n

section Settling

variable {registry : Registry} {autoEscape : Bool} {source : List Char}

mutual

theorem settle_leaves : ∀ {node node' : Node}, settle registry autoEscape source node = .ok node' →
    List.Forall₂ (Settles registry autoEscape) (leaves node) (leaves node')
  | .echo expr filters mark, node', h => by
    rw [settle] at h
    split at h
    · cases h
    · next hfind =>
      cases h
      rw [List.find?_eq_none] at hfind
      exact .cons (.echo fun f hf => by simpa using hfind f hf) .nil
  | .choice branches none, node', h => by
    rw [settle] at h
    obtain ⟨branches', hbranches, h⟩ := bind_eq_ok h
    cases h
    rw [leaves, leaves]
    exact settleBranches_leaves hbranches
  | .choice branches (some body), node', h => by
    rw [settle] at h
    obtain ⟨branches', hbranches, h⟩ := bind_eq_ok h
    obtain ⟨body', hbody, h⟩ := bind_eq_ok h
    cases h
    rw [leaves, leaves]
    exact List.rel_append (settleBranches_leaves hbranches) (settleAll_leaves hbody)
  | .loop _ _ body, node', h | .block _ body, node', h => by
    rw [settle] at h
    obtain ⟨body', hbody, h⟩ := bind_eq_ok h
    cases h
    rw [leaves, leaves]
    exact settleAll_leaves hbody
  | .text _, node', h | .parent, node', h | .extending _ _, node', h | .including _ _, node', h => by
    simp only [settle, Except.ok.injEq] at h
    subst h
    exact .cons (.same nofun) .nil

theorem settleAll_leaves : ∀ {nodes nodes' : List Node},
    settleAll registry autoEscape source nodes = .ok nodes' →
      List.Forall₂ (Settles registry autoEscape) (leavesOf nodes) (leavesOf nodes')
  | [], nodes', h => by
    rw [settleAll] at h
    cases h
    exact .nil
  | node :: nodes, nodes', h => by
    rw [settleAll] at h
    obtain ⟨node', hnode, h⟩ := bind_eq_ok h
    obtain ⟨others, hothers, h⟩ := bind_eq_ok h
    cases h
    rw [leavesOf, leavesOf]
    exact List.rel_append (settle_leaves hnode) (settleAll_leaves hothers)

theorem settleBranches_leaves : ∀ {branches branches' : List (Branch Node)},
    settleBranches registry autoEscape source branches = .ok branches' →
      List.Forall₂ (Settles registry autoEscape) (leavesOfBranches branches) (leavesOfBranches branches')
  | [], branches', h => by
    rw [settleBranches] at h
    cases h
    exact .nil
  | ⟨condition, body⟩ :: branches, branches', h => by
    rw [settleBranches] at h
    obtain ⟨body', hbody, h⟩ := bind_eq_ok h
    obtain ⟨others, hothers, h⟩ := bind_eq_ok h
    cases h
    rw [leavesOfBranches, leavesOfBranches]
    exact List.rel_append (settleAll_leaves hbody) (settleBranches_leaves hothers)

end

private theorem exists_of_mem_right {α β : Type} {R : α → β → Prop} {xs : List α} {ys : List β}
    (h : List.Forall₂ R xs ys) {y : β} (hy : y ∈ ys) : ∃ x ∈ xs, R x y := by
  induction h with
  | nil => cases hy
  | @cons x y' xs ys hxy _ ih =>
    rcases List.mem_cons.mp hy with rfl | hy
    · exact ⟨x, by simp, hxy⟩
    · obtain ⟨x', hx', hr⟩ := ih hy
      exact ⟨x', by simp [hx'], hr⟩

theorem exists_settles {nodes nodes' : List Node}
    (h : settleAll registry autoEscape source nodes = .ok nodes') {n : Node} (hn : n ∈ leavesOf nodes') :
    ∃ written ∈ leavesOf nodes, Settles registry autoEscape written n :=
  exists_of_mem_right (settleAll_leaves h) hn

end Settling

-- The filters of a leaf, if it has any, are registered, and none of them is raw.
def FiltersSettled (registry : Registry) (n : Node) : Prop :=
  ∀ expr filters escape, n = .echo expr filters escape →
    "raw" ∉ filters ∧ ∀ f ∈ filters, registry.contains f = true

theorem Settles.filtersSettled {registry : Registry} {autoEscape : Bool} {written n : Node}
    (h : Settles registry autoEscape written n) : FiltersSettled registry n := by
  intro expr filters escape hn
  cases h with
  | echo hknown =>
    cases hn
    exact ⟨by simp, fun f hf => hknown f (List.mem_of_mem_filter hf)⟩
  | same hother => exact absurd hn (hother _ _ _)

variable {registry : Registry}

theorem readSource_settled {c : Compiler} {source : String} {nodes : List Node}
    (h : readSource c source = .ok nodes) : ∀ n ∈ leavesOf nodes, FiltersSettled c.registry n := by
  unfold readSource at h
  dsimp only at h
  split at h
  · cases h
  · intro n hn
    obtain ⟨written, -, hsettles⟩ := exists_settles h hn
    exact hsettles.filtersSettled

variable {p : Node → Prop} {bodies : List (List Node)}

-- What holds of a leaf, unless it is replaced.
def OrIncluding (p : Node → Prop) (n : Node) : Prop := p n ∨ ∃ name line, n = .including name line

theorem OrIncluding.of_leaf {n : Node} (h : OrIncluding p n)
    (hn : ∀ name line, n ≠ .including name line) : p n :=
  h.resolve_right fun ⟨name, line, he⟩ => hn name line he

private theorem forall_take {α : Type} {P : α → Prop} {xs : List α} (h : ∀ x ∈ xs, P x) (k : Nat) :
    ∀ x ∈ xs.take k, P x := fun x hx => h x (List.mem_of_mem_take hx)

private theorem forall_drop {α : Type} {P : α → Prop} {xs : List α} (h : ∀ x ∈ xs, P x) (k : Nat) :
    ∀ x ∈ xs.drop k, P x := fun x hx => h x (List.mem_of_mem_drop hx)

mutual

theorem leaves_plug : ∀ {node : Node} {bodies : List (List Node)}, (∀ n ∈ leaves node, OrIncluding p n) →
    (∀ body ∈ bodies, ∀ n ∈ leavesOf body, p n) → ∀ n ∈ leavesOf (plug node bodies), p n
  | .including name line, bodies, _, hbodies => by
    rw [plug]
    cases bodies with
    | nil => simp [leavesOf]
    | cons body bodies => exact hbodies body (by simp)
  | .choice branches none, bodies, h, hbodies => by
    rw [leaves] at h
    rw [plug, leavesOf_singleton, leaves]
    exact leaves_plugBranches h hbodies
  | .choice branches (some body), bodies, h, hbodies => by
    rw [leaves, List.forall_mem_append] at h
    rw [plug, leavesOf_singleton, leaves, List.forall_mem_append]
    exact ⟨leaves_plugBranches h.1 (forall_take hbodies _), leaves_plugAll h.2 (forall_drop hbodies _)⟩
  | .loop kind header body, bodies, h, hbodies => by
    rw [leaves] at h
    rw [plug, leavesOf_singleton, leaves]
    exact leaves_plugAll h hbodies
  | .block name body, bodies, h, hbodies => by
    rw [leaves] at h
    rw [plug, leavesOf_singleton, leaves]
    exact leaves_plugAll h hbodies
  | .text _, _, h, _ | .echo _ _ _, _, h, _ | .parent, _, h, _ | .extending _ _, _, h, _ => by
    simp only [plug, leavesOf_singleton, leaves, List.mem_singleton, forall_eq] at h ⊢
    exact h.of_leaf fun name line => by simp

theorem leaves_plugAll : ∀ {nodes : List Node} {bodies : List (List Node)},
    (∀ n ∈ leavesOf nodes, OrIncluding p n) → (∀ body ∈ bodies, ∀ n ∈ leavesOf body, p n) →
      ∀ n ∈ leavesOf (plugAll nodes bodies), p n
  | [], bodies, _, _ => by simp [plugAll, leavesOf]
  | node :: nodes, bodies, h, hbodies => by
    rw [leavesOf, List.forall_mem_append] at h
    rw [plugAll, leavesOf_append, List.forall_mem_append]
    exact ⟨leaves_plug h.1 (forall_take hbodies _), leaves_plugAll h.2 (forall_drop hbodies _)⟩

theorem leaves_plugBranches : ∀ {branches : List (Branch Node)} {bodies : List (List Node)},
    (∀ n ∈ leavesOfBranches branches, OrIncluding p n) → (∀ body ∈ bodies, ∀ n ∈ leavesOf body, p n) →
      ∀ n ∈ leavesOfBranches (plugBranches branches bodies), p n
  | [], bodies, _, _ => by simp [plugBranches, leavesOfBranches]
  | ⟨condition, body⟩ :: branches, bodies, h, hbodies => by
    rw [leavesOfBranches, List.forall_mem_append] at h
    rw [plugBranches, leavesOfBranches, List.forall_mem_append]
    exact ⟨leaves_plugAll h.1 (forall_take hbodies _), leaves_plugBranches h.2 (forall_drop hbodies _)⟩

end

theorem sealed_or_including {n : Node} (hfilters : FiltersSettled registry n) (hext : ¬Extending n) :
    OrIncluding (Sealed registry) n := by
  by_cases hinc : ∃ name line, n = .including name line
  · exact .inr hinc
  · exact .inl ⟨hfilters, fun name line he => hext ⟨name, line, he⟩,
      fun name line he => hinc ⟨name, line, he⟩⟩

-- The nodes that a text gives to its program: where it extends a base, its blocks.
def ownNodes (nodes : List Node) : Option String → List Node
  | none => nodes
  | some _ => topBlocksOf nodes

theorem leaves_ownNodes (nodes : List Node) (base : Option String) :
    leavesOf (ownNodes nodes base) ⊆ leavesOf nodes := by
  cases base with
  | none => exact List.Subset.refl _
  | some name => exact leaves_topBlocksOf nodes

-- What holds of the leaves of a text, unless they are replaced, and of those of all bodies holds of
-- all leaves once they are put together.
theorem assemble_leaves {c : Compiler} {source : String} {plan' : Plan} (hplan : plan c source = .ok plan')
    (hown : ∀ nodes base, readSource c source = .ok nodes → base? none nodes = .ok base →
      ∀ n ∈ leavesOf (ownNodes nodes base), OrIncluding p n)
    (hbodies : ∀ body ∈ bodies, ∀ n ∈ leavesOf body, p n) :
    ∀ n ∈ leavesOf (plan'.assemble bodies), p n := by
  unfold plan at hplan
  split at hplan
  · cases hplan
  · next nodes hnodes =>
    split at hplan
    · cases hplan
    · next base hbase =>
      cases hplan
      have hkept := hown nodes base hnodes hbase
      cases base with
      | none => exact leaves_plugAll hkept hbodies
      | some name =>
        have hblocks : ∀ n ∈ leavesOf (plugAll (topBlocksOf nodes) bodies.dropLast), p n :=
          leaves_plugAll hkept fun body hbody => hbodies body (List.dropLast_subset bodies hbody)
        refine leaves_mergeAll (fun n hn => hblocks n (leaves_blockBodiesOf _ hn)) ?_
        cases hlast : bodies.getLast? with
        | none => simp [List.getLastD_eq_getLast?, hlast, leavesOf]
        | some body =>
          have hbody := hbodies body (List.mem_of_getLast? hlast)
          simpa [List.getLastD_eq_getLast?, hlast] using hbody

-- What holds of the leaves of all texts that a template reaches holds of all leaves of its program.
theorem link_leaves {c : Compiler} {h : Host} (stack : List Path) (a : Template) {t t' : Trail}
    {nodes : List Node}
    (hown : ∀ b, Reaches c h a b → ∀ nodes base, readSource c b.text = .ok nodes →
      base? none nodes = .ok base → ∀ n ∈ leavesOf (ownNodes nodes base), OrIncluding p n)
    (hrun : (link c h stack a.text a.path).run t = .ok (nodes, t')) : ∀ n ∈ leavesOf nodes, p n := by
  induction stack, a using unvisited_induction (h := h) generalizing t t' nodes with
  | step stack a ih =>
    obtain ⟨plan', bodies, hplan, rfl, hm⟩ := link_run_ok hrun
    refine assemble_leaves hplan (hown a .refl) fun body hbody => ?_
    obtain ⟨name, hname, s, s', hvisit⟩ := (mapM_run_ok (R := fun _ _ => True) (fun _ => trivial)
      (fun _ _ _ _ _ => trivial) (fun _ _ _ _ _ _ => trivial) hm).2.2 body hbody
    obtain ⟨l, text, hl, hany, hs, hlink⟩ := visit_run_ok hvisit
    have hrefers : Refers c h a ⟨text, some l.path⟩ := ⟨name, l, ⟨⟨plan', hplan, hname⟩, hl⟩, hs, rfl⟩
    exact ih l text hany hs (fun b hb => hown b (.head hrefers hb)) hlink

theorem ownNodes_sealed {c : Compiler} {source : String} {nodes : List Node} {base : Option String}
    (hnodes : readSource c source = .ok nodes) (hbase : base? none nodes = .ok base) :
    ∀ n ∈ leavesOf (ownNodes nodes base), OrIncluding (Sealed c.registry) n := by
  intro n hn
  obtain ⟨hblocks, hnone⟩ := not_extending_of_base? hbase
  have hext : ¬Extending n := by
    cases base with
    | none => exact (hnone rfl).2 n hn
    | some name => exact hblocks n hn
  exact sealed_or_including (readSource_settled hnodes n (leaves_ownNodes nodes base hn)) hext

theorem link_sealed {c : Compiler} {h : Host} (stack : List Path) (a : Template) {t t' : Trail}
    {nodes : List Node} (hrun : (link c h stack a.text a.path).run t = .ok (nodes, t')) :
    ∀ n ∈ leavesOf nodes, n.Sealed c.registry :=
  link_leaves stack a (fun _ _ _ _ hnodes hbase => ownNodes_sealed hnodes hbase) hrun

-- The leaves of a compiled program refer to no template, and the filters they use are registered and
-- never raw. So no run of it, whatever the bindings and whether or not names have to be bound, fails
-- for an invalid program or an unknown filter.
theorem compile_sealed (c : Compiler) (h : Host) (source : String) (path : Option Path) (r : Compiled)
    (hr : compile c h source path = .ok r) :
    (∀ n ∈ leavesOf r.program.nodes, n.Sealed c.registry) ∧
      ∀ (strict : Bool) (template : String) (bindings : Bindings) (failure : Render.Failure),
        Render.render ⟨c.registry, strict⟩ template r.program bindings = .error failure →
          (∀ message, failure.fault ≠ .invalidProgram message) ∧
            ∀ name, failure.fault ≠ .unknownFilter name := by
  have hleaves : r.program.version = Program.currentVersion ∧
      ∀ n ∈ leavesOf r.program.nodes, n.Sealed c.registry := by
    obtain ⟨nodes, t, hrun, rfl⟩ := compile_run_ok hr
    exact ⟨rfl, link_sealed _ ⟨source, path.map h.absolute⟩ hrun⟩
  refine ⟨hleaves.2, fun strict template bindings failure hfailure => ?_⟩
  have hsafe := Render.render_safe hleaves.1 hleaves.2 hfailure
  exact ⟨fun message he => hsafe (he ▸ .invalidProgram message),
    fun name he => hsafe (he ▸ .unknownFilter name)⟩

-- A page that overrides a block of a base, which includes another template.
private def basedShelf : Host := shelf [(shelfPlace "base.html",
  .file "\x7b% block b %\x7d\x7b% include 'note' %\x7d\x7b% endblock %\x7d".toUTF8 ⟨1, 0⟩)]

private def basedPage : String :=
  "\x7b% extends 'base' %\x7d\x7b% block b %\x7d\x7b\x7b x | raw \x7d\x7d\x7b% parent %\x7d\x7b% endblock %\x7d"

theorem compile_based_page_sealed : ∃ r, compile shelfCompiler basedShelf basedPage none = .ok r ∧
    (∀ n ∈ leavesOf r.program.nodes, n.Sealed shelfCompiler.registry) ∧
      ∀ (strict : Bool) (template : String) (bindings : Bindings) (failure : Render.Failure),
        Render.render ⟨shelfCompiler.registry, strict⟩ template r.program bindings = .error failure →
          (∀ message, failure.fault ≠ .invalidProgram message) ∧
            ∀ name, failure.fault ≠ .unknownFilter name := by
  have hok : (compile shelfCompiler basedShelf basedPage none).isOk = true := by decide +kernel
  cases hr : compile shelfCompiler basedShelf basedPage none with
  | error failure => rw [hr] at hok; cases hok
  | ok r => exact ⟨r, rfl, compile_sealed _ _ _ _ r hr⟩

end TemplateEngine.Compile
