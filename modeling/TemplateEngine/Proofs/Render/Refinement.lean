import TemplateEngine.Proofs.Render.Meaning
import TemplateEngine.Proofs.Render.Safe
import TemplateEngine.Proofs.Runs

-- The machine gives every program the text it stands for, and leaves the frames in scope as it
-- found them.
namespace TemplateEngine.Render

variable {α β : Type}

-- Every expression that is known was read from the text it is kept under.
def Faithful (known : List (String × Expr)) : Prop :=
  ∀ source e, known.lookup source = some e → Expr.read source = .ok e

theorem faithful_nil : Faithful [] := by
  intro source e h
  cases h

theorem Faithful.cons {known : List (String × Expr)} {source : String} {e : Expr}
    (h : Faithful known) (hread : Expr.read source = .ok e) : Faithful ((source, e) :: known) := by
  intro other e' hlookup
  by_cases hother : other = source
  · subst hother
    simp only [List.lookup_cons_self, Option.some.injEq] at hlookup
    rwa [← hlookup]
  · rw [List.lookup_cons, beq_false_of_ne hother] at hlookup
    exact h other e' hlookup

-- What a run leaves: `text` after what was written before, frames that still satisfy `P`, and
-- expressions that are known rightly.
structure Machine.Leaves (P : List Bindings → Prop) (m : Machine) (text : String) (n : Machine) : Prop where
  out : n.out = m.out ++ text
  frames : P n.frames
  faithful : Faithful n.known

theorem Machine.Leaves.trans {P : List Bindings → Prop} {m n o : Machine} {text more : String}
    (h : m.Leaves P text n) (h' : n.Leaves P more o) : m.Leaves P (text ++ more) o where
  out := by rw [h'.out, h.out, String.append_assoc]
  frames := h'.frames
  faithful := h'.faithful

theorem Machine.Leaves.refl {P : List Bindings → Prop} {m : Machine} (hP : P m.frames)
    (hm : Faithful m.known) : m.Leaves P "" m where
  out := String.append_empty.symm
  frames := hP
  faithful := hm

-- How a run that starts on `m` may end, where `y` is what it is to give and to write.
inductive Ends (P : List Bindings → Prop) (m : Machine) :
    (y : Except Stop (α × String)) → Except Fault α × Machine → Prop where
  | done {a : α} {text : String} {n : Machine} (h : m.Leaves P text n) : Ends P m (.ok (a, text)) (.ok a, n)
  | stopped {stop : Stop} {text : String} {n : Machine} (h : m.Leaves P text n) :
    Ends P m (.error stop) (.error stop.fault, n)

def Renders (P : List Bindings → Prop) (x : Run α) (y : Except Stop (α × String)) : Prop :=
  ∀ m, P m.frames → Faithful m.known → Ends P m y (x.run m)

-- A run that writes nothing.
def Gives (P : List Bindings → Prop) (x : Run α) (y : Except Stop α) : Prop :=
  Renders P x ((fun a => (a, "")) <$> y)

-- A run that has no result but its text.
def Writes (P : List Bindings → Prop) (x : Run Unit) (y : Except Stop String) : Prop :=
  Renders P x ((fun text => ((), text)) <$> y)

variable {P : List Bindings → Prop}

theorem Renders.bind {x : Run α} {y : Except Stop (α × String)} {f : α → Run β}
    {g : α → Except Stop (β × String)} (hx : Renders P x y) (hf : ∀ a, Renders P (f a) (g a)) :
    Renders P (x >>= f) (y >>= fun (a, text) => (fun (b, more) => (b, text ++ more)) <$> g a) := by
  intro m hP hm
  have hends := hx m hP hm
  rw [run_bind]
  generalize x.run m = end' at hends
  cases hends with
  | stopped hn => exact .stopped hn
  | @done a text n hn =>
    have hends' := hf a n hn.frames hn.faithful
    change Ends P m ((fun (b, more) => (b, text ++ more)) <$> g a) ((f a).run n)
    generalize (f a).run n = end'', g a = z at hends'
    cases hends' with
    | stopped ho => exact .stopped (hn.trans ho)
    | done ho => exact .done (hn.trans ho)

theorem Gives.bind {x : Run α} {y : Except Stop α} {f : α → Run β} {g : α → Except Stop (β × String)}
    (hx : Gives P x y) (hf : ∀ a, Renders P (f a) (g a)) : Renders P (x >>= f) (y >>= g) := by
  have h := Renders.bind hx hf
  have hempty : ∀ z : Except Stop (β × String), (fun (b, more) => (b, "" ++ more)) <$> z = z := by
    intro z
    simp
  rw [bind_map_left] at h
  simpa only [hempty] using h

theorem Renders.map {x : Run α} {y : Except Stop (α × String)} (f : α → β) (hx : Renders P x y) :
    Renders P (x >>= fun a => pure (f a)) ((fun (a, text) => (f a, text)) <$> y) := by
  intro m hP hm
  have hends := hx m hP hm
  rw [run_bind]
  generalize x.run m = end' at hends
  cases hends with
  | stopped hn => exact .stopped hn
  | done hn => exact .done hn

theorem gives_pure (a : α) : Gives P (pure a) (.ok a) := fun _ hP hm => .done (.refl hP hm)

theorem gives_throw {frames : List Bindings} (fault : Fault) :
    Gives P (throw fault : Run α) (.error ⟨frames, fault⟩) :=
  fun _ hP hm => .stopped (.refl hP hm)

theorem writes_write (text : String) : Writes P (write text) (.ok text) :=
  fun _ hP hm => .done ⟨rfl, hP, hm⟩

-- What a run with no machine says is a result or the fault of the frames at hand.
theorem gives_ofExcept {frames : List Bindings} (x : Except Fault α) :
    Gives P (liftExcept x : Run α) (located frames x) := by
  cases x with
  | error fault => exact gives_throw fault
  | ok a => exact gives_pure a

theorem gives_expression {frames : List Bindings} (source : String) :
    Gives P (expression source)
      (located frames ((Expr.read source).mapError fun fault => .expression source fault.message)) := by
  intro m hP hm
  unfold expression
  rw [run_get_bind]
  cases hknown : m.known.lookup source with
  | some e =>
    rw [hm source e hknown]
    exact .done (.refl hP hm)
  | none =>
    cases hread : Expr.read source with
    | error fault =>
      exact Ends.stopped (.refl hP hm : m.Leaves P "" m)
    | ok e => exact .done ⟨String.append_empty.symm, hP, hm.cons hread⟩

theorem gives_evaluate {rules : Rules} {frames : List Bindings} (source : String) :
    Gives (· = frames) (evaluate rules source) (located frames (valueOf rules frames source)) := by
  have hbind : (fun v => (v, "")) <$> located frames (valueOf rules frames source) =
      located frames ((Expr.read source).mapError fun fault => .expression source fault.message) >>=
        fun e => (fun v => (v, "")) <$>
          located frames ((e.eval (lookup frames) rules.strict).mapError (faultOf frames source)) := by
    unfold valueOf
    cases Expr.read source <;> rfl
  unfold Gives evaluate
  rw [hbind]
  refine (gives_expression source).bind fun e m hm hknown => ?_
  subst hm
  have hquiet : m.Leaves (· = m.frames) "" m := .refl rfl hknown
  rw [run_get_bind]
  dsimp only
  cases e.eval (lookup m.frames) rules.strict with
  | error failure => exact .stopped hquiet
  | ok v => exact .done hquiet

theorem gives_applyFilter {rules : Rules} {frames : List Bindings} (v : Value) (name : String) :
    Gives P (applyFilter rules v name) (located frames (filtered rules v name)) := by
  unfold applyFilter filtered
  cases rules.registry.get? name with
  | none => exact gives_throw _
  | some filter =>
    cases filter with
    | raw => exact gives_pure v
    | transform f =>
      dsimp only
      cases f v with
      | error message => exact gives_throw _
      | ok w => exact gives_pure w

theorem gives_filters {rules : Rules} {frames : List Bindings} (filters : List String) (v : Value) :
    Gives P (filters.foldlM (applyFilter rules) v) (located frames (filters.foldlM (filtered rules) v)) := by
  induction filters generalizing v with
  | nil => exact gives_pure v
  | cons name filters ih =>
    have hbind : (fun w => (w, "")) <$> located frames ((name :: filters).foldlM (filtered rules) v) =
        located frames (filtered rules v name) >>=
          fun w => (fun w => (w, "")) <$> located frames (filters.foldlM (filtered rules) w) := by
      rw [List.foldlM_cons]
      cases filtered rules v name <;> rfl
    unfold Gives
    rw [hbind, List.foldlM_cons]
    exact (gives_applyFilter v name).bind ih

theorem Writes.seq {x z : Run Unit} {y w : Except Stop String} (hx : Writes P x y) (hz : Writes P z w) :
    Writes P (x >>= fun _ => z) (do let text ← y; let more ← w; return text ++ more) := by
  have h := Renders.bind hx fun _ => hz
  unfold Writes
  cases y with
  | error stop => exact h
  | ok text => cases w <;> exact h

theorem writes_forM {f : α → Run Unit} {g : α → Except Stop String} (xs : List α)
    (hf : ∀ x ∈ xs, Writes P (f x) (g x)) : Writes P (xs.forM f) (String.join <$> xs.mapM g) := by
  induction xs with
  | nil => exact gives_pure ()
  | cons x xs ih =>
    have hjoin : String.join <$> (x :: xs).mapM g =
        (do let text ← g x; let more ← String.join <$> xs.mapM g; return text ++ more) := by
      rw [List.mapM_cons]
      cases g x with
      | error stop => rfl
      | ok text =>
        cases hrest : xs.mapM g with
        | error stop => rfl
        | ok rest => simp [bind, Except.bind, Functor.map, Except.map, pure, Except.pure]
    rw [hjoin]
    exact (hf x (by simp)).seq (ih fun y hy => hf y (by simp [hy]))

-- A run with one more frame on top may set it as often as it likes.
theorem Writes.withFrame {frames : List Bindings} {x : Run Unit} {y : Except Stop String}
    (hx : Writes (·.tail = frames) x y) : Writes (· = frames) (withFrame x) y := by
  intro m hm hknown
  have hends := hx { m with frames := [] :: m.frames } hm hknown
  change Ends (· = frames) m _ ((x.run { m with frames := [] :: m.frames }).1,
    { (x.run { m with frames := [] :: m.frames }).2 with
      frames := (x.run { m with frames := [] :: m.frames }).2.frames.tail })
  generalize x.run { m with frames := [] :: m.frames } = end', (fun text => ((), text)) <$> y = z at hends ⊢
  cases hends with
  | stopped hn => exact .stopped ⟨hn.out, hn.frames, hn.faithful⟩
  | done hn => exact .done ⟨hn.out, hn.frames, hn.faithful⟩

theorem Writes.setFrame {frames : List Bindings} {frame : Bindings} {x : Run Unit} {y : Except Stop String}
    (hx : Writes (· = frame :: frames) x y) :
    Writes (·.tail = frames) (do setFrame frame; x) y := by
  intro m hm hknown
  have hends := hx { m with frames := frame :: m.frames.tail } (by rw [hm]) hknown
  change Ends (·.tail = frames) m _ (x.run { m with frames := frame :: m.frames.tail })
  generalize x.run { m with frames := frame :: m.frames.tail } = end', (fun text => ((), text)) <$> y = z
    at hends ⊢
  cases hends with
  | stopped hn => exact .stopped ⟨hn.out, by rw [hn.frames]; rfl, hn.faithful⟩
  | done hn => exact .done ⟨hn.out, by rw [hn.frames]; rfl, hn.faithful⟩

mutual

theorem run_writes (rules : Rules) (frames : List Bindings) :
    ∀ node : Node, Writes (· = frames) (run rules node) (textOf rules frames node)
  | .text content => by
    rw [run, textOf]
    exact writes_write content
  | .echo expr filters escape => by
    rw [run, textOf]
    unfold Writes
    simp only [map_bind]
    refine (gives_evaluate expr).bind fun v => (gives_filters filters v).bind fun w => ?_
    exact writes_write (shownText escape w)
  | .choice branches none => by
    rw [run, textOf]
    have h := (runBranches_renders rules frames branches).map fun _ => ()
    simpa [Writes] using h
  | .choice branches (some body) => by
    rw [run, textOf]
    have h := (runBranches_renders rules frames branches).bind
      (f := fun taken => if !taken then runAll rules body else pure ())
      (g := fun taken =>
        if !taken then (fun text => ((), text)) <$> textOfAll rules frames body else .ok ((), ""))
      fun taken => by
        cases taken with
        | false => exact runAll_writes rules frames body
        | true => exact gives_pure ()
    cases hbranches : textOfBranches rules frames branches with
    | error stop => rwa [hbranches] at h
    | ok taken =>
      rw [hbranches] at h
      cases taken with
      | none =>
        change Renders _ _ ((fun (u, more) => (u, "" ++ more)) <$>
          ((fun text => ((), text)) <$> textOfAll rules frames body)) at h
        simp only [Functor.map_map, String.empty_append] at h
        exact h
      | some text =>
        change Renders _ _ (.ok ((), text ++ "")) at h
        rwa [String.append_empty] at h
  | .loop kind header body => by
    rw [run, textOf]
    unfold Writes
    simp only [map_bind]
    refine (gives_ofExcept _).bind fun parsed => (gives_evaluate _).bind fun v =>
      (gives_ofExcept _).bind fun items => ?_
    have hrounds := writes_forM items.zipIdx fun item _ =>
      (runAll_writes rules (roundFrame parsed item.2 items.length item.1.1 item.1.2 :: frames) body).setFrame
    simpa [Writes] using hrounds.withFrame
  | .block name body => by
    rw [run, textOf]
    exact runAll_writes rules frames body
  | .parent => by
    rw [run, textOf]
    exact gives_pure ()
  | .extending name line => by
    rw [run, textOf]
    exact gives_throw _
  | .including name line => by
    rw [run, textOf]
    exact gives_throw _

theorem runAll_writes (rules : Rules) (frames : List Bindings) :
    ∀ nodes : List Node, Writes (· = frames) (runAll rules nodes) (textOfAll rules frames nodes)
  | [] => by
    rw [runAll, textOfAll]
    exact gives_pure ()
  | node :: nodes => by
    rw [runAll, textOfAll]
    exact (run_writes rules frames node).seq (runAll_writes rules frames nodes)

theorem runBranches_renders (rules : Rules) (frames : List Bindings) :
    ∀ branches : List (Branch Node), Renders (· = frames) (runBranches rules branches)
      ((fun taken => (taken.isSome, taken.getD "")) <$> textOfBranches rules frames branches)
  | [] => by
    rw [runBranches, textOfBranches]
    exact gives_pure false
  | ⟨condition, body⟩ :: branches => by
    rw [runBranches, textOfBranches]
    simp only [map_bind]
    refine (gives_evaluate condition).bind fun v => ?_
    split
    · have h := (runAll_writes rules frames body).map fun _ => true
      simpa using h
    · exact runBranches_renders rules frames branches

end

theorem render_eq {rules : Rules} {template : String} {p : Program} {bindings : Bindings}
    (hversion : p.version = Program.currentVersion) :
    render rules template p bindings =
      (textOfAll rules [bindings] p.nodes).mapError fun stop => ⟨template, stop.fault⟩ := by
  have hends := runAll_writes rules [bindings] p.nodes ⟨"", [bindings], []⟩ rfl
    faithful_nil
  unfold render
  rw [if_neg fun hne => hne hversion]
  generalize (runAll rules p.nodes).run ⟨"", [bindings], []⟩ = end' at hends
  cases htext : textOfAll rules [bindings] p.nodes with
  | error stop =>
    rw [htext] at hends
    cases hends
    rfl
  | ok text =>
    rw [htext] at hends
    cases hends with
    | done hn => exact congrArg Except.ok (hn.out.trans String.empty_append)

-- The part of the frames that `view` shows is the same in two machines.
def SameFrames (view : List Bindings → List Bindings) (m n : Machine) : Prop := view n.frames = view m.frames

-- Whatever a machine holds, a balanced run leaves it with the same frames.
abbrev Balanced (view : List Bindings → List Bindings) (x : Run α) : Prop := Keeps (SameFrames view) x

variable {view : List Bindings → List Bindings}

theorem SameFrames.refl (m : Machine) : SameFrames view m m := rfl

theorem SameFrames.trans (m n o : Machine) (h : SameFrames view m n) (h' : SameFrames view n o) :
    SameFrames view m o :=
  Eq.trans h' h

theorem Balanced.bind {x : Run α} {f : α → Run β} (hx : Balanced view x) (hf : ∀ a, Balanced view (f a)) :
    Balanced view (x >>= f) :=
  Keeps.bind SameFrames.trans hx hf

theorem balanced_throw (fault : Fault) : Balanced view (throw fault : Run α) := fun _ => rfl

theorem balanced_pure (a : α) : Balanced view (pure a) := fun _ => rfl

theorem balanced_ofExcept (x : Except Fault α) : Balanced view (liftExcept x : Run α) := by
  cases x with
  | error fault => exact balanced_throw fault
  | ok a => exact balanced_pure a

theorem balanced_forM {f : α → Run Unit} (xs : List α) (hf : ∀ x, Balanced view (f x)) :
    Balanced view (xs.forM f) :=
  Keeps.forM SameFrames.refl SameFrames.trans fun x _ => hf x

theorem balanced_evaluate (rules : Rules) (source : String) : Balanced view (evaluate rules source) := by
  have hexpression : Balanced view (expression source) := by
    intro m
    unfold expression
    rw [run_get_bind]
    split
    · rfl
    · split <;> rfl
  refine hexpression.bind fun e m => ?_
  rw [run_get_bind]
  dsimp only
  split <;> rfl

theorem balanced_filters (rules : Rules) (filters : List String) (v : Value) :
    Balanced view (filters.foldlM (applyFilter rules) v) := by
  induction filters generalizing v with
  | nil => exact balanced_pure v
  | cons name filters ih =>
    rw [List.foldlM_cons]
    refine Balanced.bind (fun m => ?_) ih
    unfold applyFilter
    split
    · rfl
    · rfl
    · split <;> rfl

mutual

theorem run_balanced (rules : Rules) : ∀ node : Node, Balanced id (run rules node)
  | .text content => by
    rw [run]
    exact fun _ => rfl
  | .echo expr filters escape => by
    rw [run]
    refine (balanced_evaluate rules expr).bind fun v => (balanced_filters rules filters v).bind fun w => ?_
    exact fun _ => rfl
  | .choice branches none => by
    rw [run]
    exact (runBranches_balanced rules branches).bind fun _ => balanced_pure ()
  | .choice branches (some body) => by
    rw [run]
    refine (runBranches_balanced rules branches).bind fun taken => ?_
    cases taken with
    | false => exact runAll_balanced rules body
    | true => exact balanced_pure ()
  | .loop kind header body => by
    rw [run]
    refine (balanced_ofExcept _).bind fun parsed => (balanced_evaluate rules _).bind fun v =>
      (balanced_ofExcept _).bind fun items => ?_
    -- the rounds change the frame on top only
    have hrounds : Balanced List.tail (items.zipIdx.forM fun ((key, value), index) => do
        setFrame (roundFrame parsed index items.length key value)
        runAll rules body) := by
      refine balanced_forM _ fun item => ?_
      exact Balanced.bind (fun _ => rfl) fun _ m => congrArg List.tail (runAll_balanced rules body m)
    exact fun m => hrounds { m with frames := [] :: m.frames }
  | .block name body => by
    rw [run]
    exact runAll_balanced rules body
  | .parent => by
    rw [run]
    exact balanced_pure ()
  | .extending name line => by
    rw [run]
    exact balanced_throw _
  | .including name line => by
    rw [run]
    exact balanced_throw _

theorem runAll_balanced (rules : Rules) : ∀ nodes : List Node, Balanced id (runAll rules nodes)
  | [] => by
    rw [runAll]
    exact balanced_pure ()
  | node :: nodes => by
    rw [runAll]
    exact (run_balanced rules node).bind fun _ => runAll_balanced rules nodes

theorem runBranches_balanced (rules : Rules) :
    ∀ branches : List (Branch Node), Balanced id (runBranches rules branches)
  | [] => by
    rw [runBranches]
    exact balanced_pure false
  | ⟨condition, body⟩ :: branches => by
    rw [runBranches]
    refine (balanced_evaluate rules condition).bind fun v => ?_
    split
    · exact (runAll_balanced rules body).bind fun _ => balanced_pure true
    · exact runBranches_balanced rules branches

end

-- A program of the present version is given exactly the text it stands for, or its first fault; and
-- no list of nodes, whether it succeeds or fails, leaves other frames in scope than it found.
theorem render_refines (rules : Rules) (template : String) (p : Program) (bindings : Bindings)
    (hversion : p.version = Program.currentVersion) :
    render rules template p bindings =
        (textOfAll rules [bindings] p.nodes).mapError (fun stop => ⟨template, stop.fault⟩) ∧
      ∀ (nodes : List Node) (m : Machine), ((runAll rules nodes).run m).2.frames = m.frames :=
  ⟨render_eq hversion, fun nodes m => runAll_balanced rules nodes m⟩

-- A page that shows each item of a list, or a dash for one that is not true.
private def dashedList : Program := .ofNodes [.loop .foreach "xs as x"
  [.choice [⟨"x", [.echo "x" [] true, .echo "loop.first ~ y" [] false]⟩] (some [.text "-"])]]

private def dashedBindings : Bindings := [("xs", .array [.string "<", .string "", .string "z"])]

theorem render_refines_list : dashedList.version = Program.currentVersion ∧
    (render ⟨.basic, false⟩ "page" dashedList dashedBindings).toOption = some "&lt;true-zfalse" ∧
    render ⟨.basic, false⟩ "page" dashedList dashedBindings =
        (textOfAll ⟨.basic, false⟩ [dashedBindings] dashedList.nodes).mapError
          (fun stop => ⟨"page", stop.fault⟩) ∧
      ∀ (nodes : List Node) (m : Machine), ((runAll ⟨.basic, false⟩ nodes).run m).2.frames = m.frames :=
  ⟨rfl, by decide +kernel, render_refines ⟨.basic, false⟩ "page" dashedList dashedBindings rfl⟩

end TemplateEngine.Render
