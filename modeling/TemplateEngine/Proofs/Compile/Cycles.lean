import TemplateEngine.Proofs.Compile.Locality
import TemplateEngine.Proofs.Compile.References
import TemplateEngine.Proofs.Compile.Stack

-- Circular references are found exactly: what is reported as a circle is one, and where nothing is
-- reported there is none.
namespace TemplateEngine.Compile

open Node

-- A directive of a template leads to a place.
def Template.Leads (c : Compiler) (h : Host) (a : Template) (l : Location) : Prop :=
  ∃ name, a.Directs c name ∧ locate c.options h name a.path = .ok l

-- A stack of files, each of which a directive of the one before leads to, from a first template to
-- the one whose file is the last.
inductive Route (c : Compiler) (h : Host) (root : Template) : List Path → Template → Prop where
  | start : Route c h root root.path.toList root
  | step {stack : List Path} {a : Template} {l : Location} {text : String} (hroute : Route c h root stack a)
      (hleads : a.Leads c h l) (htext : h.textAt l = .ok text) :
      Route c h root (stack ++ [l.path]) ⟨text, some l.path⟩

section Faults

variable {registry : Registry} {autoEscape : Bool} {source : List Char} {fault : Fault}

def Fault.OfFilter (fault : Fault) : Prop :=
  ∃ name line suggestions, fault = .unknownFilter name line suggestions

mutual

theorem settle_eq_error : ∀ {node : Node}, settle registry autoEscape source node = .error fault →
    fault.OfFilter
  | .echo expr filters escape, h => by
    rw [settle] at h
    split at h
    · cases h
      exact ⟨_, _, _, rfl⟩
    · cases h
  | .choice branches none, h => by
    rw [settle] at h
    rcases bind_eq_error h with h | ⟨_, -, h⟩
    · exact settleBranches_eq_error h
    · cases h
  | .choice branches (some body), h => by
    rw [settle] at h
    rcases bind_eq_error h with h | ⟨_, -, h⟩
    · exact settleBranches_eq_error h
    · rcases bind_eq_error h with h | ⟨_, -, h⟩
      · exact settleAll_eq_error h
      · cases h
  | .loop kind header body, h => by
    rw [settle] at h
    rcases bind_eq_error h with h | ⟨_, -, h⟩
    · exact settleAll_eq_error h
    · cases h
  | .block name body, h => by
    rw [settle] at h
    rcases bind_eq_error h with h | ⟨_, -, h⟩
    · exact settleAll_eq_error h
    · cases h
  | .text _, h | .parent, h | .extending _ _, h | .including _ _, h => by simp [settle] at h

theorem settleAll_eq_error : ∀ {nodes : List Node},
    settleAll registry autoEscape source nodes = .error fault → fault.OfFilter
  | [], h => by simp [settleAll] at h
  | node :: nodes, h => by
    rw [settleAll] at h
    rcases bind_eq_error h with h | ⟨_, -, h⟩
    · exact settle_eq_error h
    · rcases bind_eq_error h with h | ⟨_, -, h⟩
      · exact settleAll_eq_error h
      · cases h

theorem settleBranches_eq_error : ∀ {branches : List (Branch Node)},
    settleBranches registry autoEscape source branches = .error fault → fault.OfFilter
  | [], h => by simp [settleBranches] at h
  | ⟨condition, body⟩ :: branches, h => by
    rw [settleBranches] at h
    rcases bind_eq_error h with h | ⟨_, -, h⟩
    · exact settleAll_eq_error h
    · rcases bind_eq_error h with h | ⟨_, -, h⟩
      · exact settleBranches_eq_error h
      · cases h

end

theorem plan_eq_error {c : Compiler} {source : String} (h : plan c source = .error fault) :
    (∃ line message, fault = .malformed line message) ∨ fault.OfFilter := by
  unfold plan at h
  split at h
  · next e hread =>
    cases h
    unfold readSource at hread
    dsimp only at hread
    split at hread
    · cases hread
      exact .inl ⟨_, _, rfl⟩
    · exact .inr (settleAll_eq_error hread)
  · split at h
    · cases h
      exact .inl ⟨_, _, rfl⟩
    · cases h

theorem plan_ne_circular {c : Compiler} {source : String} {p : Path} {chain : List Path} :
    plan c source ≠ .error (.circular p chain) := by
  intro h
  rcases plan_eq_error h with ⟨_, _, he⟩ | ⟨_, _, _, he⟩ <;> cases he

end Faults

-- A reported circle is a route, a directive at its end, and a file on the route that it leads to.
structure Circle (c : Compiler) (h : Host) (root : Template) (p : Path) (chain : List Path) : Prop where
  route : ∃ stack a l, Route c h root stack a ∧ Template.Leads c h a l ∧
    chain = stack ++ [l.path] ∧ p = l.path
  distinct : Distinct chain.dropLast
  closed : ∃ q ∈ chain.dropLast, q.same p = true

theorem link_circular {c : Compiler} {h : Host} {root : Template} (stack : List Path) (a : Template)
    {t : Trail} {failed : Option Path} {p : Path} {chain : List Path}
    (hrun : (link c h stack a.text a.path).run t = .error ⟨failed, .circular p chain⟩)
    (hroute : Route c h root stack a) (hdistinct : Distinct stack) : Circle c h root p chain := by
  induction stack, a using unvisited_induction (h := h) generalizing t with
  | step stack a ih =>
    cases failsBy_of_link hrun with
    | text hplan => exact absurd hplan plan_ne_circular
    | @circle name l hfollows hany =>
      obtain ⟨⟨plan, hplan, hname⟩, hl⟩ := hfollows
      refine ⟨⟨stack, a, l, hroute, ⟨name, directs_of_mem_names hplan hname, hl⟩, rfl, rfl⟩, ?_, ?_⟩
      · rwa [List.dropLast_concat]
      · rw [List.dropLast_concat]
        exact List.any_eq_true.mp hany
    | @entered name l text _ _ hfollows hany htext hlink =>
      obtain ⟨⟨plan, hplan, hname⟩, hl⟩ := hfollows
      have hleads : a.Leads c h l := ⟨name, directs_of_mem_names hplan hname, hl⟩
      exact ih l text hany htext hlink (hroute.step hleads htext) (hdistinct.push hany)

-- A template is joined only if nothing that it refers to, however far away, is on the stack.
theorem link_off_stack {c : Compiler} {h : Host} (stack : List Path) (a : Template) {t t' : Trail}
    {nodes : List Node} (hrun : (link c h stack a.text a.path).run t = .ok (nodes, t'))
    {b : Template} (hb : Relation.TransGen (Refers c h) a b) {p : Path} (hp : p ∈ b.path) :
    ¬stack.any (·.same p) = true := by
  induction stack, a using unvisited_induction (h := h) generalizing t t' nodes with
  | step stack a ih =>
    obtain ⟨plan, hplan, hnames⟩ := link_visits hrun
    obtain ⟨a', ⟨name, l, ⟨⟨plan', hplan', hname⟩, hl⟩, hs, hpath⟩, ha'⟩ :=
      Relation.TransGen.head'_iff.mp hb
    obtain rfl : plan = plan' := Except.ok.inj (hplan.symm.trans hplan')
    obtain ⟨l', text, s, u, body, hl', hany, hs', hlink, -⟩ := hnames name hname
    obtain rfl : l = l' := Except.ok.inj (hl.symm.trans hl')
    obtain rfl : a'.text = text := Except.ok.inj (hs.symm.trans hs')
    rcases Relation.reflTransGen_iff_eq_or_transGen.mp ha' with rfl | ha'
    · rw [hpath] at hp
      rwa [← Option.mem_some_iff.mp hp]
    · have hfar : Relation.TransGen (Refers c h) ⟨a'.text, some l.path⟩ b := by rwa [← hpath]
      have hoff := ih l a'.text hany hs hlink hfar
      intro hmem
      exact hoff (by simp only [List.any_append, hmem, Bool.true_or])

-- Every template that is reached is joined with its own file on the stack.
theorem link_reaches {c : Compiler} {h : Host} {stack : List Path} {a b : Template} {t t' : Trail}
    {nodes : List Node} (hrun : (link c h stack a.text a.path).run t = .ok (nodes, t'))
    (hstack : ∀ p ∈ a.path, stack.any (·.same p) = true) (hb : Reaches c h a b) :
    ∃ stack' t t' nodes, (link c h stack' b.text b.path).run t = .ok (nodes, t') ∧
      ∀ p ∈ b.path, stack'.any (·.same p) = true := by
  induction hb with
  | refl => exact ⟨stack, t, t', nodes, hrun, hstack⟩
  | tail _ hrefers ih =>
    obtain ⟨name, l, ⟨⟨plan, hplan, hname⟩, hl⟩, hs, hpath⟩ := hrefers
    obtain ⟨stack', u, u', nodes', hrun', -⟩ := ih
    obtain ⟨plan', hplan', hnames⟩ := link_visits hrun'
    obtain rfl : plan = plan' := Except.ok.inj (hplan.symm.trans hplan')
    obtain ⟨l', text, s, v, body, hl', -, hs', hlink, -⟩ := hnames name hname
    obtain rfl : l = l' := Except.ok.inj (hl.symm.trans hl')
    have htext := Except.ok.inj (hs'.symm.trans hs)
    subst htext
    rw [← hpath] at hlink
    refine ⟨_, _, _, _, hlink, fun p hp => ?_⟩
    rw [hpath] at hp
    simp [← Option.mem_some_iff.mp hp, Path.same]

theorem transGen_target {c : Compiler} {h : Host} {a b : Template} (hcwd : h.cwd.Proper)
    (hb : Relation.TransGen (Refers c h) a b) :
    ∃ l : Location, l.Proper ∧ b.path = some l.path ∧ h.textAt l = .ok b.text := by
  obtain ⟨_, _, name, l, ⟨_, hl⟩, hs, hpath⟩ := Relation.TransGen.tail'_iff.mp hb
  exact ⟨l, locate_proper hcwd hl, hpath, hs⟩

theorem Path.same_trans {p q r : Path} (hpq : p.same q = true) (hqr : q.same r = true) :
    p.same r = true := by
  simp only [Path.same, beq_iff_eq] at *
  exact hpq.trans hqr

section Joined

variable {c : Compiler} {h : Host} {stack : List Path} {a b b' : Template} {t t' : Trail}
  {nodes : List Node}

theorem not_transGen_self (hcwd : h.cwd.Proper)
    (hrun : (link c h stack a.text a.path).run t = .ok (nodes, t'))
    (hstack : ∀ p ∈ a.path, stack.any (·.same p) = true) (hb : Reaches c h a b) :
    ¬Relation.TransGen (Refers c h) b b := by
  intro hcycle
  obtain ⟨stack', u, u', nodes', hrun', hstack'⟩ := link_reaches hrun hstack hb
  obtain ⟨l, -, hpath, -⟩ := transGen_target hcwd hcycle
  exact link_off_stack stack' b hrun' hcycle (Option.mem_def.mpr hpath)
    (hstack' _ (Option.mem_def.mpr hpath))

theorem not_same_of_transGen (hrun : (link c h stack a.text a.path).run t = .ok (nodes, t'))
    (hstack : ∀ p ∈ a.path, stack.any (·.same p) = true)
    (hb : Relation.TransGen (Refers c h) a b) {p q : Path} (hp : p ∈ a.path) (hq : q ∈ b.path) :
    ¬p.same q = true := by
  intro hsame
  obtain ⟨r, hr, hrp⟩ := List.any_eq_true.mp (hstack p hp)
  exact link_off_stack stack a hrun hb hq (List.any_eq_true.mpr ⟨r, hr, Path.same_trans hrp hsame⟩)

-- On success two templates that are reached and have the same path are one.
theorem reached_eq (hcwd : h.cwd.Proper)
    (hrun : (link c h stack a.text a.path).run t = .ok (nodes, t'))
    (hstack : ∀ p ∈ a.path, stack.any (·.same p) = true) (hb : Reaches c h a b)
    (hb' : Reaches c h a b') {p p' : Path} (hp : p ∈ b.path) (hp' : p' ∈ b'.path)
    (hsame : p.same p' = true) : b = b' := by
  rcases Relation.reflTransGen_iff_eq_or_transGen.mp hb with rfl | hb
  · rcases Relation.reflTransGen_iff_eq_or_transGen.mp hb' with rfl | hb'
    · rfl
    · exact absurd hsame (not_same_of_transGen hrun hstack hb' hp hp')
  · rcases Relation.reflTransGen_iff_eq_or_transGen.mp hb' with rfl | hb'
    · rw [Path.same_comm] at hsame
      exact absurd hsame (not_same_of_transGen hrun hstack hb hp' hp)
    · obtain ⟨l, hl, hpath, hs⟩ := transGen_target hcwd hb
      obtain ⟨l', hl', hpath', hs'⟩ := transGen_target hcwd hb'
      rw [hpath, Option.mem_some_iff] at hp
      rw [hpath', Option.mem_some_iff] at hp'
      rw [← hp, ← hp'] at hsame
      obtain rfl := (Location.path_same_iff hl hl').mp hsame
      have htext : b.text = b'.text := Except.ok.inj (hs.symm.trans hs')
      cases b
      cases b'
      simp_all

end Joined

-- A recorded resolution leads from the path of a template to the path that a name resolved to.
def Compiled.Edge (r : Compiled) (x y : List PathPart) : Prop :=
  ∃ q ∈ r.resolutions, q.origin.map Path.parts = some x ∧ q.resolved.parts = y

theorem mem_toList_any (origin : Option Path) : ∀ p ∈ origin, origin.toList.any (·.same p) = true := by
  rintro p rfl
  simp [Path.same]

section Recorded

variable {c : Compiler} {h : Host} {source : String} {path : Option Path} {r : Compiled}
  {x y : List PathPart}

theorem refers_of_edge (hr : compile c h source path = .ok r) (hxy : r.Edge x y) :
    ∃ b b', Reaches c h ⟨source, path.map h.absolute⟩ b ∧ Refers c h b b' ∧
      b.path.map Path.parts = some x ∧ b'.path.map Path.parts = some y := by
  obtain ⟨nodes, t, hrun, rfl⟩ := compile_run_ok hr
  obtain ⟨q, hq, hx, hy⟩ := hxy
  have hsound := link_sound _ ⟨source, path.map h.absolute⟩ hrun .refl (Trail.empty_sound c h _)
  obtain ⟨b, l, hb, hfollows, horigin, hresolved⟩ := hsound.resolutions q hq
  obtain ⟨⟨p, hp, hname⟩, hl⟩ := hfollows
  obtain ⟨p', hp', hnames⟩ := link_follows (a := ⟨source, path.map h.absolute⟩) hrun hb
  obtain rfl : p = p' := Except.ok.inj (hp.symm.trans hp')
  obtain ⟨l', text, ⟨-, hl'⟩, hs⟩ := hnames q.name hname
  obtain rfl : l = l' := Except.ok.inj (hl.symm.trans hl')
  refine ⟨b, ⟨text, some l.path⟩, hb, ⟨q.name, l, ⟨⟨p, hp, hname⟩, hl⟩, hs, rfl⟩, ?_, ?_⟩
  · rw [← horigin, hx]
  · rw [← hy, hresolved, Option.map_some]

theorem reached_eq_of_parts (hcwd : h.cwd.Proper) (hr : compile c h source path = .ok r)
    {b b' : Template} (hb : Reaches c h ⟨source, path.map h.absolute⟩ b)
    (hb' : Reaches c h ⟨source, path.map h.absolute⟩ b') (hx : b.path.map Path.parts = some x)
    (hx' : b'.path.map Path.parts = some x) : b = b' := by
  obtain ⟨nodes, t, hrun, -⟩ := compile_run_ok hr
  obtain ⟨p, hp, hpx⟩ := Option.map_eq_some_iff.mp hx
  obtain ⟨p', hp', hpx'⟩ := Option.map_eq_some_iff.mp hx'
  exact reached_eq hcwd hrun (mem_toList_any _) hb hb' hp hp' (by simp [Path.same, hpx, hpx'])

theorem transGen_refers_of_edge (hcwd : h.cwd.Proper) (hr : compile c h source path = .ok r)
    (hxy : Relation.TransGen r.Edge x y) :
    ∃ b b', Reaches c h ⟨source, path.map h.absolute⟩ b ∧ Relation.TransGen (Refers c h) b b' ∧
      b.path.map Path.parts = some x ∧ b'.path.map Path.parts = some y := by
  induction hxy with
  | single hedge =>
    obtain ⟨b, b', hb, hrefers, hx, hy⟩ := refers_of_edge hr hedge
    exact ⟨b, b', hb, .single hrefers, hx, hy⟩
  | tail _ hedge ih =>
    obtain ⟨b, d, hb, hway, hx, hd⟩ := ih
    obtain ⟨d', b', hd', hrefers, hd'', hy⟩ := refers_of_edge hr hedge
    obtain rfl := reached_eq_of_parts hcwd hr (hb.trans hway.to_reflTransGen) hd' hd hd''
    exact ⟨b, b', hb, hway.tail hrefers, hx, hy⟩

theorem edges_acyclic (hcwd : h.cwd.Proper) (hr : compile c h source path = .ok r)
    (x : List PathPart) : ¬Relation.TransGen r.Edge x x := by
  intro hcycle
  obtain ⟨b, b', hb, hway, hx, hx'⟩ := transGen_refers_of_edge hcwd hr hcycle
  obtain rfl := reached_eq_of_parts hcwd hr hb (hb.trans hway.to_reflTransGen) hx hx'
  obtain ⟨nodes, t, hrun, -⟩ := compile_run_ok hr
  exact not_transGen_self hcwd hrun (mem_toList_any _) hb hway

theorem circle_of_compile {failed : Option Path} {p : Path} {chain : List Path}
    (hr : compile c h source path = .error ⟨failed, .circular p chain⟩) :
    Circle c h ⟨source, path.map h.absolute⟩ p chain := by
  unfold compile at hr
  dsimp only at hr
  split at hr
  · next failure hrun =>
    cases hr
    refine link_circular _ ⟨source, path.map h.absolute⟩ hrun .start ?_
    cases path with
    | none => exact List.Pairwise.nil
    | some p => exact List.pairwise_singleton _ _
  · cases hr

end Recorded

-- Every file that is opened is closed again, also when its joining fails, and no file is ever open
-- twice, so that compiling ends however templates refer to one another. A reported circle is a route
-- of directives that closes, and where compiling succeeds the recorded resolutions have no circle.
theorem compile_cycles (c : Compiler) (h : Host) (source : String) (path : Option Path)
    (hcwd : h.cwd.Proper) :
    (∀ depth l s result s', (trackFile c h depth l).run s = some (result, s') →
      s'.stack = s.stack ∧ (Distinct s.stack → ∀ k ∈ s'.held, k ∈ s.held ∨ Distinct k)) ∧
    (∀ depth, h.tree.files.length < depth →
      ∃ s, trackCompile c h depth source path = some (compile c h source path, s) ∧
        s.stack = [] ∧ ∀ k ∈ s.held, Distinct k) ∧
    (∀ failed p chain, compile c h source path = .error ⟨failed, .circular p chain⟩ →
      Circle c h ⟨source, path.map h.absolute⟩ p chain) ∧
    ∀ r, compile c h source path = .ok r → ∀ x, ¬Relation.TransGen r.Edge x x :=
  ⟨fun depth l => balanced_trackFile c h depth l,
    fun depth hdepth => trackCompile_eq c h depth source path hdepth,
    fun _ _ _ hr => circle_of_compile hr,
    fun _ hr => edges_acyclic hcwd hr⟩

private def circleStart : String := "\x7b% include 'inner' %\x7d"

-- A template that extends another one, which includes the first again.
private def circleShelf : Host := shelf
  [(shelfPlace "inner.html", .file "\x7b% extends 'outer' %\x7d".toUTF8 ⟨1, 0⟩),
   (shelfPlace "outer.html",
      .file "\x7b% if x %\x7d\x7b% include 'inner' %\x7d\x7b% endif %\x7d".toUTF8 ⟨1, 0⟩)]

theorem compile_circle_shelf : circleShelf.cwd.Proper ∧
    (∃ s, trackCompile shelfCompiler circleShelf 5 circleStart none =
        some (compile shelfCompiler circleShelf circleStart none, s) ∧
      s.stack = [] ∧ ∀ k ∈ s.held, Distinct k) ∧
    Circle shelfCompiler circleShelf ⟨circleStart, none⟩ (shelfPlace "inner.html").path
      [(shelfPlace "inner.html").path, (shelfPlace "outer.html").path, (shelfPlace "inner.html").path] := by
  have hcycles := compile_cycles shelfCompiler circleShelf circleStart none (by decide)
  have hr : (compile shelfCompiler circleShelf circleStart none).map (fun _ => ()) =
      .error ⟨some (shelfPlace "inner.html").path, .circular (shelfPlace "inner.html").path
        [(shelfPlace "inner.html").path, (shelfPlace "outer.html").path,
          (shelfPlace "inner.html").path]⟩ := by
    decide +kernel
  refine ⟨by decide, hcycles.2.1 5 (by decide), ?_⟩
  cases hc : compile shelfCompiler circleShelf circleStart none with
  | ok r => rw [hc] at hr; cases hr
  | error failure =>
    rw [hc] at hr
    cases hr
    exact hcycles.2.2.1 _ _ _ hc

end TemplateEngine.Compile
