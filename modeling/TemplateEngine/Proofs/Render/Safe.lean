import TemplateEngine.Proofs.Program.Leaves
import TemplateEngine.Proofs.Runs
import TemplateEngine.Render.Machine

-- Programs whose leaves are sealed run without faults of the program itself: whatever goes wrong is
-- due to an expression, a loop or a value.
namespace TemplateEngine

-- A leaf that refers to no other template, and whose filters are registered and none of them raw.
structure Node.Sealed (registry : Registry) (n : Node) : Prop where
  filters : ∀ expr filters escape, n = .echo expr filters escape →
    "raw" ∉ filters ∧ ∀ f ∈ filters, registry.contains f = true
  notExtending : ∀ name line, n ≠ .extending name line
  notIncluding : ∀ name line, n ≠ .including name line

namespace Render

inductive Fault.OfProgram : Fault → Prop where
  | invalidProgram (message : String) : OfProgram (.invalidProgram message)
  | unknownFilter (name : String) : OfProgram (.unknownFilter name)

def Safe {α : Type} (x : Run α) : Prop :=
  ∀ m fault m', x.run m = (.error fault, m') → ¬fault.OfProgram

variable {α β : Type}

theorem safe_pure (a : α) : Safe (pure a) := by
  intro m fault m' h
  cases h

theorem safe_throw {fault : Fault} (hfault : ¬fault.OfProgram) : Safe (throw fault : Run α) := by
  intro m fault' m' h
  cases h
  exact hfault

theorem Safe.bind {x : Run α} {f : α → Run β} (hx : Safe x) (hf : ∀ a, Safe (f a)) : Safe (x >>= f) := by
  intro m fault m' h
  rw [run_bind] at h
  rcases hxm : x.run m with ⟨_ | a, n⟩
  · rw [hxm] at h
    cases h
    exact hx m fault m' hxm
  · rw [hxm] at h
    exact hf a n fault m' h

theorem safe_modify (f : Machine → Machine) : Safe (modify f : Run Unit) := by
  intro m fault m' h
  cases h

theorem safe_get : Safe (get : Run Machine) := by
  intro m fault m' h
  cases h

theorem safe_liftExcept {x : Except Fault α} (hx : ∀ fault, x = .error fault → ¬fault.OfProgram) :
    Safe (liftExcept x : Run α) := by
  intro m fault m' h
  cases x with
  | ok a => cases h
  | error e =>
    cases h
    exact hx fault rfl

theorem safe_foldlM {γ : Type} {f : γ → α → Run γ} {xs : List α} (hf : ∀ c, ∀ x ∈ xs, Safe (f c x))
    (c : γ) : Safe (xs.foldlM f c) := by
  induction xs generalizing c with
  | nil => exact safe_pure c
  | cons x xs ih =>
    rw [List.foldlM_cons]
    exact (hf c x (by simp)).bind fun d => ih (fun d y hy => hf d y (by simp [hy])) d

theorem safe_forM {f : α → Run Unit} (hf : ∀ x, Safe (f x)) (xs : List α) : Safe (xs.forM f) := by
  induction xs with
  | nil => exact safe_pure ()
  | cons x xs ih => exact (hf x).bind fun _ => ih

theorem Safe.withFrame {x : Run Unit} (hx : Safe x) : Safe (withFrame x) := by
  intro m fault m' h
  rcases hxm : x.run { m with frames := [] :: m.frames } with ⟨result, after⟩
  simp only [Render.withFrame, ExceptT.run_mk, hxm] at h
  cases h
  exact hx _ fault after hxm

theorem safe_expression (source : String) : Safe (expression source) := by
  refine safe_get.bind fun m => ?_
  split
  · exact safe_pure _
  · split
    · exact safe_throw fun h => nomatch h
    · exact (safe_modify _).bind fun _ => safe_pure _

theorem safe_evaluate (rules : Rules) (source : String) : Safe (evaluate rules source) := by
  refine (safe_expression source).bind fun e => safe_get.bind fun m => ?_
  dsimp only
  split
  · exact safe_pure _
  · next failure _ =>
    refine safe_throw fun h => ?_
    cases failure <;> exact nomatch h

theorem safe_applyFilter {rules : Rules} {name : String} (hname : rules.registry.contains name = true)
    (v : Value) : Safe (applyFilter rules v name) := by
  obtain ⟨filter, hfilter⟩ := Option.isSome_iff_exists.mp hname
  unfold applyFilter
  rw [hfilter]
  cases filter with
  | raw => exact safe_pure v
  | transform f =>
    dsimp only
    split
    · exact safe_pure _
    · exact safe_throw fun h => nomatch h

theorem itemsOf_eq_error {source : String} {v : Value} {fault : Fault}
    (h : itemsOf source v = .error fault) : ¬fault.OfProgram := by
  cases v <;> cases h <;> exact fun h => nomatch h

-- The only fault of a loop header is its shape.
def FailsAsLoop (header : String) (x : Except Fault α) : Prop :=
  ∀ fault, x = .error fault → ∃ message, fault = .invalidLoop header message

theorem FailsAsLoop.bind {header : String} {x : Except Fault α} {f : α → Except Fault β}
    (hx : FailsAsLoop header x) (hf : ∀ a, FailsAsLoop header (f a)) : FailsAsLoop header (x >>= f) := by
  intro fault h
  cases x with
  | error e =>
    cases h
    exact hx fault rfl
  | ok a => exact hf a fault h

theorem failsAsLoop_ok (header : String) (a : α) : FailsAsLoop header (.ok a) := by
  intro fault h
  cases h

theorem failsAsLoop_error (header message : String) :
    FailsAsLoop header (.error (.invalidLoop header message) : Except Fault α) := by
  intro fault h
  cases h
  exact ⟨message, rfl⟩

theorem loopVariable_fails (header : String) (raw : List Char) :
    FailsAsLoop header (loopVariable header raw) := by
  unfold loopVariable
  dsimp only
  generalize hname : Text.isName _ = valid
  cases valid
  · exact failsAsLoop_error header _
  · exact failsAsLoop_ok header _

theorem LoopHeader.read_fails (kind : LoopKind) (header : String) :
    FailsAsLoop header (LoopHeader.read kind header) := by
  have hfinish : ∀ (iterable : List Char) (named : Option String × String), FailsAsLoop header
      (if (Text.trim iterable).isEmpty = true then
        throw (malformed header "an iterable expression")
      else pure (⟨String.ofList (Text.trim iterable), named.1, named.2⟩ : LoopHeader)) := by
    intro iterable named
    split
    · exact failsAsLoop_error header _
    · exact failsAsLoop_ok header _
  unfold LoopHeader.read
  split
  · exact failsAsLoop_error header _
  · next iterable names _ =>
    split
    · next key value _ =>
      refine (loopVariable_fails header key).bind fun k => ?_
      refine (loopVariable_fails header value).bind fun v => ?_
      exact (failsAsLoop_ok header (some k, v)).bind fun named => hfinish iterable named
    · refine (loopVariable_fails header names).bind fun v => ?_
      exact (failsAsLoop_ok header (none, v)).bind fun named => hfinish iterable named

open Node

mutual

theorem run_safe {registry : Registry} {strict : Bool} : ∀ {node : Node},
    (∀ n ∈ leaves node, n.Sealed registry) → Safe (run ⟨registry, strict⟩ node)
  | .text content, _ => by
    rw [run]
    exact safe_modify _
  | .echo expr filters escape, h => by
    have hfilters := (h (.echo expr filters escape) (by simp [leaves])).filters _ _ _ rfl
    rw [run]
    refine (safe_evaluate _ _).bind fun v => ?_
    exact (safe_foldlM (fun w f hf => safe_applyFilter (hfilters.2 f hf) w) v).bind fun w => safe_modify _
  | .choice branches none, h => by
    rw [leaves] at h
    rw [run]
    exact (runBranches_safe h).bind fun _ => safe_pure _
  | .choice branches (some body), h => by
    rw [leaves, List.forall_mem_append] at h
    rw [run]
    refine (runBranches_safe h.1).bind fun taken => ?_
    split
    · exact runAll_safe h.2
    · exact safe_pure ()
  | .loop kind header body, h => by
    rw [leaves] at h
    rw [run]
    refine (safe_liftExcept fun fault hfault => ?_).bind fun parsed => ?_
    · obtain ⟨message, rfl⟩ := LoopHeader.read_fails kind header fault hfault
      exact fun h => nomatch h
    refine (safe_evaluate _ _).bind fun v => ?_
    refine (safe_liftExcept fun fault hfault => itemsOf_eq_error hfault).bind fun items => ?_
    refine Safe.withFrame (safe_forM (fun item => ?_) _)
    exact (safe_modify _).bind fun _ => runAll_safe h
  | .block name body, h => by
    rw [leaves] at h
    rw [run]
    exact runAll_safe h
  | .parent, _ => by
    rw [run]
    exact safe_pure ()
  | .extending name line, h => absurd rfl ((h _ (by simp [leaves])).notExtending name line)
  | .including name line, h => absurd rfl ((h _ (by simp [leaves])).notIncluding name line)

theorem runAll_safe {registry : Registry} {strict : Bool} : ∀ {nodes : List Node},
    (∀ n ∈ leavesOf nodes, n.Sealed registry) → Safe (runAll ⟨registry, strict⟩ nodes)
  | [], _ => by
    rw [runAll]
    exact safe_pure ()
  | node :: nodes, h => by
    rw [leavesOf, List.forall_mem_append] at h
    rw [runAll]
    exact (run_safe h.1).bind fun _ => runAll_safe h.2

theorem runBranches_safe {registry : Registry} {strict : Bool} : ∀ {branches : List (Branch Node)},
    (∀ n ∈ leavesOfBranches branches, n.Sealed registry) → Safe (runBranches ⟨registry, strict⟩ branches)
  | [], _ => by
    rw [runBranches]
    exact safe_pure _
  | ⟨condition, body⟩ :: branches, h => by
    rw [leavesOfBranches, List.forall_mem_append] at h
    rw [runBranches]
    refine (safe_evaluate _ _).bind fun v => ?_
    split
    · exact (runAll_safe h.1).bind fun _ => safe_pure _
    · exact runBranches_safe h.2

end

theorem render_safe {registry : Registry} {strict : Bool} {template : String} {p : Program}
    {bindings : Bindings} {failure : Failure} (hversion : p.version = Program.currentVersion)
    (h : ∀ n ∈ leavesOf p.nodes, n.Sealed registry)
    (hr : render ⟨registry, strict⟩ template p bindings = .error failure) :
    ¬failure.fault.OfProgram := by
  unfold render at hr
  rw [if_neg fun hne => hne hversion] at hr
  rcases hrun : (runAll ⟨registry, strict⟩ p.nodes).run ⟨"", [bindings], []⟩ with ⟨fault | _, m⟩
  · rw [hrun] at hr
    cases hr
    exact runAll_safe h _ fault m hrun
  · rw [hrun] at hr
    cases hr

end Render

end TemplateEngine
