import TemplateEngine.Proofs.Render.Refinement

-- What it changes that names have to be bound: a run that looks up no unbound name does not notice,
-- and any other one stops at the first unbound name that it looks up.
namespace TemplateEngine

variable {ε α β : Type}

-- The first outcome is the second one, or it stops where a name is missing. The second one never
-- fails for an undefined name.
structure Tightens (missing undefined : ε → Prop) (x y : Except ε α) : Prop where
  agrees : x = y ∨ ∃ e, x = .error e ∧ missing e
  defined : ∀ e, y = .error e → ¬undefined e

variable {missing undefined : ε → Prop}

theorem Tightens.ok (a : α) : Tightens missing undefined (.ok a) (.ok a) :=
  ⟨.inl rfl, fun _ h => nomatch h⟩

theorem Tightens.same {x : Except ε α} (hx : ∀ e, x = .error e → ¬undefined e) :
    Tightens missing undefined x x :=
  ⟨.inl rfl, hx⟩

theorem Tightens.bind {x y : Except ε α} {f g : α → Except ε β} (hxy : Tightens missing undefined x y)
    (hfg : ∀ a, Tightens missing undefined (f a) (g a)) :
    Tightens missing undefined (x >>= f) (y >>= g) where
  agrees := by
    rcases hxy.agrees with rfl | ⟨e, rfl, he⟩
    · cases x with
      | error e => exact .inl rfl
      | ok a => exact (hfg a).agrees
    · exact .inr ⟨e, rfl, he⟩
  defined := by
    intro e h
    rcases bind_eq_error h with h | ⟨a, -, h⟩
    · exact hxy.defined e h
    · exact (hfg a).defined e h

theorem Tightens.mapM {f g : α → Except ε β} (xs : List α)
    (hfg : ∀ x ∈ xs, Tightens missing undefined (f x) (g x)) :
    Tightens missing undefined (xs.mapM f) (xs.mapM g) := by
  induction xs with
  | nil => exact .ok []
  | cons x xs ih =>
    rw [List.mapM_cons, List.mapM_cons]
    refine (hfg x (by simp)).bind fun b => ?_
    exact (ih fun y hy => hfg y (by simp [hy])).bind fun bs => .ok (b :: bs)

-- Where the first one fails for an undefined name, the name is missing.
theorem Tightens.missing_of_undefined {x y : Except ε α} {e : ε} (hxy : Tightens missing undefined x y)
    (hx : x = .error e) (he : undefined e) : missing e := by
  rcases hxy.agrees with hsame | ⟨stopped, hstopped, hmissing⟩
  · exact absurd he (hxy.defined e (hsame.symm.trans hx))
  · cases hx.symm.trans hstopped
    exact hmissing

namespace Expr

def Failure.Undefined : Failure → Prop
  | .undefined _ => True
  | .invalid _ => False

def Failure.Missing (lookup : String → Option Value) : Failure → Prop
  | .undefined name => lookup name = none
  | .invalid _ => False

theorem tightens_invalid {lookup : String → Option Value} (x : Except Fault α) :
    Tightens (Failure.Missing lookup) Failure.Undefined (x.mapError .invalid) (x.mapError .invalid) := by
  refine .same fun e h => ?_
  cases x with
  | error fault =>
    cases h
    exact id
  | ok a => cases h

theorem eval_tightens (lookup : String → Option Value) : ∀ e : Expr,
    Tightens (Failure.Missing lookup) Failure.Undefined (e.eval lookup true) (e.eval lookup false)
  | .literal v => .ok v
  | .named name => by
    unfold eval
    cases hname : lookup name with
    | some v => exact .ok v
    | none => exact ⟨.inr ⟨_, rfl, hname⟩, fun _ h => nomatch h⟩
  | .attribute target name => by
    unfold eval
    exact (eval_tightens lookup target).bind fun v => .ok _
  | .index target key => by
    unfold eval
    exact (eval_tightens lookup target).bind fun v => (eval_tightens lookup key).bind fun k => .ok _
  | .not operand => by
    unfold eval
    exact (eval_tightens lookup operand).bind fun v => .ok _
  | .negate operand => by
    unfold eval
    exact (eval_tightens lookup operand).bind fun v => (tightens_invalid _).bind fun x => .ok _
  | .binary op left right => by
    have hright : Tightens (Failure.Missing lookup) Failure.Undefined
        (do let w ← right.eval lookup true; return Value.bool w.truthy)
        (do let w ← right.eval lookup false; return Value.bool w.truthy) :=
      (eval_tightens lookup right).bind fun w => .ok _
    cases op with
    | or =>
      unfold eval
      refine (eval_tightens lookup left).bind fun v => ?_
      cases v.truthy with
      | true => exact .ok _
      | false => exact hright
    | and =>
      unfold eval
      refine (eval_tightens lookup left).bind fun v => ?_
      cases v.truthy with
      | true => exact hright
      | false => exact .ok _
    | _ =>
      unfold eval
      exact (eval_tightens lookup left).bind fun v =>
        (eval_tightens lookup right).bind fun w => tightens_invalid _

end Expr

namespace Render

-- A name that no frame in scope binds.
def Unbound (frames : List Bindings) (name : String) : Prop := ∀ frame ∈ frames, frame.get? name = none

theorem lookup_eq_none_iff {frames : List Bindings} {name : String} :
    lookup frames name = none ↔ Unbound frames name :=
  List.findSome?_eq_none_iff

def Fault.Undefined : Fault → Prop
  | .undefinedVariable _ _ => True
  | _ => False

def Stop.Undefined (stop : Stop) : Prop := stop.fault.Undefined

-- A stop at a name that is unbound where it is looked up.
def Stop.Missing (stop : Stop) : Prop :=
  ∃ name, stop.fault = .undefinedVariable name (Text.suggest name (namesInScope stop.frames)) ∧
    Unbound stop.frames name

theorem tightens_located {frames : List Bindings} {x : Except Fault α}
    (hx : ∀ fault, x = .error fault → ¬fault.Undefined) :
    Tightens Stop.Missing Stop.Undefined (located frames x) (located frames x) := by
  refine .same fun stop h => ?_
  cases x with
  | error fault =>
    cases h
    exact hx fault rfl
  | ok a => cases h

theorem valueOf_tightens (registry : Registry) (frames : List Bindings) (source : String) :
    Tightens Stop.Missing Stop.Undefined (located frames (valueOf ⟨registry, true⟩ frames source))
      (located frames (valueOf ⟨registry, false⟩ frames source)) := by
  unfold valueOf
  cases Expr.read source with
  | error fault => exact .same fun stop h => by cases h; exact id
  | ok e =>
    have heval := Expr.eval_tightens (lookup frames) e
    dsimp only
    constructor
    · rcases heval.agrees with h | ⟨failure, h, hmissing⟩
      · exact .inl (by rw [h])
      · rw [h]
        cases failure with
        | invalid fault => exact hmissing.elim
        | undefined name => exact .inr ⟨_, rfl, name, rfl, lookup_eq_none_iff.mp hmissing⟩
    · intro stop hstop
      cases hlenient : e.eval (lookup frames) false with
      | ok v =>
        rw [hlenient] at hstop
        cases hstop
      | error failure =>
        have hdefined := heval.defined failure hlenient
        rw [hlenient] at hstop
        cases hstop
        cases failure with
        | invalid fault => exact id
        | undefined name => exact absurd trivial hdefined

theorem filters_tighten (registry : Registry) (frames : List Bindings) (filters : List String) (v : Value) :
    Tightens Stop.Missing Stop.Undefined
      (located frames (filters.foldlM (filtered ⟨registry, true⟩) v))
      (located frames (filters.foldlM (filtered ⟨registry, false⟩) v)) := by
  refine tightens_located ?_
  induction filters generalizing v with
  | nil => exact fun fault h => nomatch h
  | cons name filters ih =>
    intro fault h
    rw [List.foldlM_cons] at h
    rcases bind_eq_error h with h | ⟨w, -, h⟩
    · unfold filtered at h
      split at h
      · cases h
        exact id
      · cases h
      · next f _ =>
        cases hf : f v with
        | error message =>
          rw [hf] at h
          cases h
          exact id
        | ok w =>
          rw [hf] at h
          cases h
    · exact ih w fault h

theorem loopHeader_tightens (frames : List Bindings) (kind : LoopKind) (header : String) :
    Tightens Stop.Missing Stop.Undefined (located frames (LoopHeader.read kind header))
      (located frames (LoopHeader.read kind header)) := by
  refine tightens_located fun fault h => ?_
  obtain ⟨message, rfl⟩ := LoopHeader.read_fails kind header fault h
  exact id

theorem itemsOf_tightens (frames : List Bindings) (source : String) (v : Value) :
    Tightens Stop.Missing Stop.Undefined (located frames (itemsOf source v))
      (located frames (itemsOf source v)) := by
  refine tightens_located fun fault h => ?_
  cases v <;> cases h <;> exact id

mutual

theorem textOf_tightens (registry : Registry) (frames : List Bindings) : ∀ node : Node,
    Tightens Stop.Missing Stop.Undefined (textOf ⟨registry, true⟩ frames node)
      (textOf ⟨registry, false⟩ frames node)
  | .text content => by
    unfold textOf
    exact .ok content
  | .echo expr filters escape => by
    unfold textOf
    exact (valueOf_tightens registry frames expr).bind fun v =>
      (filters_tighten registry frames filters v).bind fun w => .ok _
  | .choice branches none => by
    unfold textOf
    exact (textOfBranches_tightens registry frames branches).bind fun taken => .ok _
  | .choice branches (some body) => by
    unfold textOf
    refine (textOfBranches_tightens registry frames branches).bind fun taken => ?_
    cases taken with
    | none => exact textOfAll_tightens registry frames body
    | some text => exact .ok text
  | .loop kind header body => by
    unfold textOf
    exact (loopHeader_tightens frames kind header).bind fun parsed =>
      (valueOf_tightens registry frames parsed.iterable).bind fun v =>
      (itemsOf_tightens frames parsed.iterable v).bind fun items =>
      (Tightens.mapM _ fun item _ => textOfAll_tightens registry _ body).bind fun rounds => .ok _
  | .block name body => by
    unfold textOf
    exact textOfAll_tightens registry frames body
  | .parent => by
    unfold textOf
    exact .ok ""
  | .extending name line => by
    unfold textOf
    exact .same fun stop h => by cases h; exact id
  | .including name line => by
    unfold textOf
    exact .same fun stop h => by cases h; exact id

theorem textOfAll_tightens (registry : Registry) (frames : List Bindings) : ∀ nodes : List Node,
    Tightens Stop.Missing Stop.Undefined (textOfAll ⟨registry, true⟩ frames nodes)
      (textOfAll ⟨registry, false⟩ frames nodes)
  | [] => by
    unfold textOfAll
    exact .ok ""
  | node :: nodes => by
    unfold textOfAll
    exact (textOf_tightens registry frames node).bind fun first =>
      (textOfAll_tightens registry frames nodes).bind fun others => .ok _

theorem textOfBranches_tightens (registry : Registry) (frames : List Bindings) :
    ∀ branches : List (Branch Node),
      Tightens Stop.Missing Stop.Undefined (textOfBranches ⟨registry, true⟩ frames branches)
        (textOfBranches ⟨registry, false⟩ frames branches)
  | [] => by
    unfold textOfBranches
    exact .ok none
  | ⟨condition, body⟩ :: branches => by
    unfold textOfBranches
    refine (valueOf_tightens registry frames condition).bind fun v => ?_
    split
    · exact (textOfAll_tightens registry frames body).bind fun text => .ok _
    · exact textOfBranches_tightens registry frames branches

end

-- A rendering for which names have to be bound fails at a name that no frame in scope binds there,
-- or it does exactly what it does for unbound names that are null; and then none is undefined.
theorem render_strict (registry : Registry) (template : String) (p : Program) (bindings : Bindings) :
    ((∃ stop name, textOfAll ⟨registry, true⟩ [bindings] p.nodes = .error stop ∧
        stop.fault = .undefinedVariable name (Text.suggest name (namesInScope stop.frames)) ∧
        Unbound stop.frames name ∧
        render ⟨registry, true⟩ template p bindings = .error ⟨template, stop.fault⟩) ∨
      render ⟨registry, true⟩ template p bindings = render ⟨registry, false⟩ template p bindings) ∧
    ∀ failure name suggestions, render ⟨registry, false⟩ template p bindings = .error failure →
      failure.fault ≠ .undefinedVariable name suggestions := by
  by_cases hversion : p.version = Program.currentVersion
  · have htext := textOfAll_tightens registry [bindings] p.nodes
    simp only [render_eq hversion]
    constructor
    · rcases htext.agrees with h | ⟨stop, h, name, hname, hunbound⟩
      · exact .inr (by rw [h])
      · exact .inl ⟨stop, name, h, hname, hunbound, by rw [h]; rfl⟩
    · intro failure name suggestions h hfault
      cases hlenient : textOfAll ⟨registry, false⟩ [bindings] p.nodes with
      | ok text =>
        rw [hlenient] at h
        cases h
      | error stop =>
        have hdefined := htext.defined stop hlenient
        rw [hlenient] at h
        cases h
        have hundefined : stop.fault = .undefinedVariable name suggestions := hfault
        unfold Stop.Undefined at hdefined
        rw [hundefined] at hdefined
        exact hdefined trivial
  · refine ⟨.inr (by simp [render, hversion]), fun failure name suggestions h hfault => ?_⟩
    unfold render at h
    rw [if_pos hversion] at h
    cases h
    cases hfault

-- A name that decides nothing is not looked up.
example : (render ⟨.basic, true⟩ "page" (.ofNodes [.echo "a or b" [] true]) [("a", .bool true)]).toOption =
    some "true" := by
  decide +kernel

end Render

end TemplateEngine
