import TemplateEngine.Proofs.Compile.Cycles
import Mathlib.Data.List.Induction

-- Joining a file gives the same whoever refers to it. What waits on the stack can only turn an answer
-- into a reported circle, and what was noted before only keeps files from being noted twice.
namespace TemplateEngine.Compile

-- Notes findings one after the other.
def Trail.recordAll (t : Trail) (found : List Resolution) : Trail :=
  found.foldl (fun t r => t.record r.name r.origin r.resolved) t

@[simp] theorem Trail.recordAll_nil (t : Trail) : t.recordAll [] = t := rfl

@[simp] theorem Trail.recordAll_cons (t : Trail) (r : Resolution) (found : List Resolution) :
    t.recordAll (r :: found) = (t.record r.name r.origin r.resolved).recordAll found := rfl

@[simp] theorem Trail.recordAll_append (t : Trail) (found more : List Resolution) :
    t.recordAll (found ++ more) = (t.recordAll found).recordAll more :=
  List.foldl_append

theorem any_same_congr {ps : List Path} {p q : Path} (h : p.same q = true) :
    ps.any (·.same p) = ps.any (·.same q) := by
  rw [Bool.eq_iff_iff, List.any_eq_true, List.any_eq_true]
  constructor
  · rintro ⟨r, hr, hrp⟩
    exact ⟨r, hr, Path.same_trans hrp h⟩
  · rintro ⟨r, hr, hrq⟩
    exact ⟨r, hr, Path.same_trans hrq (Path.same_comm p q ▸ h)⟩

-- A file that is noted on top of others is new unless it is among them or was noted before.
theorem noted_append (before own : List Path) (p : Path) :
    (if (before ++ own.filter fun d => !before.any (·.same d)).any (·.same p) = true then
        before ++ own.filter fun d => !before.any (·.same d)
      else before ++ (own.filter fun d => !before.any (·.same d)) ++ [p]) =
      before ++ (if own.any (·.same p) = true then own else own ++ [p]).filter
        fun d => !before.any (·.same d) := by
  rw [List.any_append]
  by_cases hbefore : before.any (·.same p) = true
  · rw [hbefore, Bool.true_or, if_pos rfl]
    split
    · rfl
    · rw [List.filter_append, List.filter_singleton, hbefore]
      simp
  · have hown : (own.filter fun d => !before.any (·.same d)).any (·.same p) = own.any (·.same p) := by
      rw [List.any_filter, Bool.eq_iff_iff, List.any_eq_true, List.any_eq_true]
      refine exists_congr fun d => and_congr_right fun _ => ?_
      rw [Bool.and_eq_true, and_iff_right_iff_imp]
      intro hd
      rw [any_same_congr hd, Bool.eq_false_iff.mpr hbefore]
      rfl
    rw [Bool.eq_false_iff.mpr hbefore, Bool.false_or, hown]
    split
    · rfl
    · rw [List.filter_append, List.filter_singleton, Bool.eq_false_iff.mpr hbefore]
      simp

-- Files noted on top of others are the ones that would be noted on their own, without those that are
-- there already.
theorem Trail.recordAll_dependencies (t : Trail) (found : List Resolution) :
    (t.recordAll found).dependencies =
      t.dependencies ++
        (Trail.empty.recordAll found).dependencies.filter fun d => !t.dependencies.any (·.same d) := by
  induction found using List.reverseRecOn with
  | nil => simp [Trail.empty]
  | append_singleton found r ih =>
    simp only [recordAll_append, recordAll_cons, recordAll_nil, Trail.record, ih]
    exact noted_append _ _ r.resolved

section Mirroring

variable {α β : Type}

-- A fault that comes from what waits for a file and not from the file.
def Fault.IsCircular : Fault → Prop
  | .circular _ _ => True
  | _ => False

-- What one run does another one does too, from whatever trail, unless the first one stops at a circle.
structure Mirrors (x y : Linking α) : Prop where
  ok : ∀ {t a t'}, x.run t = .ok (a, t') →
    ∃ found, t' = t.recordAll found ∧ ∀ u, y.run u = .ok (a, u.recordAll found)
  error : ∀ {t failure}, x.run t = .error failure → ¬failure.fault.IsCircular →
    ∀ u, y.run u = .error failure

theorem mirrors_pure (a : α) : Mirrors (pure a) (pure a) where
  ok := by
    rintro t _ _ ⟨⟩
    exact ⟨[], rfl, fun u => rfl⟩
  error := by
    rintro t _ ⟨⟩

theorem mirrors_throw (failure : Failure) : Mirrors (throw failure : Linking α) (throw failure) where
  ok := by
    rintro t _ _ ⟨⟩
  error := by
    rintro t _ ⟨⟩ - u
    rfl

theorem Mirrors.bind {x y : Linking α} {f g : α → Linking β} (hxy : Mirrors x y)
    (hfg : ∀ a, Mirrors (f a) (g a)) : Mirrors (x >>= f) (y >>= g) where
  ok := by
    intro t b t' hrun
    rw [StateT.run_bind] at hrun
    obtain ⟨⟨a, s⟩, hx, hf⟩ := bind_eq_ok hrun
    obtain ⟨found, rfl, hy⟩ := hxy.ok hx
    obtain ⟨more, rfl, hg⟩ := (hfg a).ok hf
    refine ⟨found ++ more, (t.recordAll_append found more).symm, fun u => ?_⟩
    rw [StateT.run_bind, hy, Trail.recordAll_append]
    exact hg (u.recordAll found)
  error := by
    intro t failure hrun hfault u
    rw [StateT.run_bind] at hrun ⊢
    rcases bind_eq_error hrun with hx | ⟨⟨a, s⟩, hx, hf⟩
    · rw [hxy.error hx hfault]
      rfl
    · obtain ⟨found, -, hy⟩ := hxy.ok hx
      rw [hy]
      exact (hfg a).error hf hfault (u.recordAll found)

theorem mirrors_mapM {f g : String → Linking β} {names : List String}
    (hfg : ∀ name ∈ names, Mirrors (f name) (g name)) : Mirrors (names.mapM f) (names.mapM g) := by
  induction names with
  | nil => exact mirrors_pure []
  | cons name names ih =>
    obtain ⟨hname, hnames⟩ := List.forall_mem_cons.mp hfg
    rw [List.mapM_cons, List.mapM_cons]
    exact hname.bind fun b => (ih hnames).bind fun bs => mirrors_pure (b :: bs)

end Mirroring

variable {c : Compiler} {h : Host} {t : Trail}

-- Every path of one stack is on the other.
def Below (stack stack' : List Path) : Prop :=
  ∀ p, stack.any (·.same p) = true → stack'.any (·.same p) = true

theorem Below.push {stack stack' : List Path} (hbelow : Below stack stack') (p : Path) :
    Below (stack ++ [p]) (stack' ++ [p]) := by
  intro q hq
  rw [List.any_append, Bool.or_eq_true] at hq ⊢
  exact hq.imp_left (hbelow q)

theorem mirrors_visit {stack stack' : List Path} {path : Option Path} {name : String}
    (hfile : ∀ l, Mirrors (linkFile c h stack' l) (linkFile c h stack l)) :
    Mirrors (visit c h stack' path name) (visit c h stack path name) where
  ok := by
    intro t nodes t' hrun
    rw [visit_run] at hrun
    cases hl : locate c.options h name path with
    | error searched =>
      rw [hl] at hrun
      cases hrun
    | ok l =>
      rw [hl] at hrun
      obtain ⟨found, rfl, hmirror⟩ := (hfile l).ok hrun
      refine ⟨⟨name, path, l.path⟩ :: found, rfl, fun u => ?_⟩
      rw [visit_run, hl]
      exact hmirror (u.record name path l.path)
  error := by
    intro t failure hrun hfault u
    rw [visit_run] at hrun ⊢
    cases hl : locate c.options h name path with
    | error searched =>
      rw [hl] at hrun
      cases hrun
      rfl
    | ok l =>
      rw [hl] at hrun
      exact (hfile l).error hrun hfault (u.record name path l.path)

theorem linkFile_apart {stack : List Path} {l : Location} (hany : ¬stack.any (·.same l.path) = true) :
    linkFile c h stack l =
      match h.textAt l with
      | .error fault => throw ⟨some l.path, .unreadable l.path fault.message⟩
      | .ok text => link c h (stack ++ [l.path]) text (some l.path) := by
  refine StateT.ext fun t => ?_
  rw [linkFile_run, if_neg hany]
  cases h.textAt l <;> rfl

theorem mirrors_linkFile {stack stack' : List Path} {l : Location} (hbelow : Below stack stack')
    (hlink : ∀ text, ¬stack'.any (·.same l.path) = true → h.textAt l = .ok text →
      Mirrors (link c h (stack' ++ [l.path]) text (some l.path))
        (link c h (stack ++ [l.path]) text (some l.path))) :
    Mirrors (linkFile c h stack' l) (linkFile c h stack l) := by
  by_cases hany : stack'.any (·.same l.path) = true
  · have hrun : ∀ t, (linkFile c h stack' l).run t =
        .error ⟨some l.path, .circular l.path (stack' ++ [l.path])⟩ := fun t => by
      rw [linkFile_run, if_pos hany]
    constructor
    · intro t nodes t' hok
      cases (hrun t).symm.trans hok
    · intro t failure herror hfault
      cases (hrun t).symm.trans herror
      exact absurd trivial hfault
  · have hany' : ¬stack.any (·.same l.path) = true := fun hl => hany (hbelow l.path hl)
    rw [linkFile_apart hany', linkFile_apart hany]
    cases htext : h.textAt l with
    | error fault => exact mirrors_throw _
    | ok text => exact hlink text hany htext

-- Joining with fewer templates waiting mirrors joining with more of them.
theorem mirrors_link (stack' : List Path) (a : Template) {stack : List Path}
    (hbelow : Below stack stack') :
    Mirrors (link c h stack' a.text a.path) (link c h stack a.text a.path) := by
  induction stack', a using unvisited_induction (h := h) generalizing stack with
  | step stack' a ih =>
    rw [link_eq, link_eq]
    cases plan c a.text with
    | error fault => exact mirrors_throw _
    | ok p =>
      simp only [map_eq_pure_bind]
      refine (mirrors_mapM fun name _ => ?_).bind fun bodies => mirrors_pure (p.assemble bodies)
      refine mirrors_visit fun l => mirrors_linkFile hbelow fun text hany htext => ?_
      exact ih l text hany htext (hbelow.push l.path)

-- The faults that a compiler finds in the text of a template and in the names it gives.
def Fault.OfText : Fault → Prop
  | .malformed _ _ | .unknownFilter _ _ _ | .templateNotFound _ _ => True
  | _ => False

theorem Fault.OfText.not_circular {fault : Fault} (hfault : fault.OfText) : ¬fault.IsCircular := by
  cases fault with
  | circular path chain => exact hfault.elim
  | _ => exact id

-- A run of a file on its own.
theorem compile_eq_link {l : Location} (hl : l.Proper) (text : String) :
    compile c h text (some l.path) =
      ((link c h [l.path] text (some l.path)).run .empty).map fun (nodes, t) =>
        ⟨.ofNodes nodes, t.dependencies, t.resolutions⟩ := by
  have horigin : (some l.path).map h.absolute = some l.path := by simp [Host.absolute_path hl]
  unfold compile
  rw [horigin]
  dsimp only [Option.toList]
  cases (link c h [l.path] text (some l.path)).run .empty <;> rfl

theorem below_push (stack : List Path) (p : Path) : Below [p] (stack ++ [p]) := by
  intro q hq
  rw [List.any_append, hq, Bool.or_true]

theorem mirrors_alone (stack : List Path) (l : Location) (text : String) :
    Mirrors (link c h (stack ++ [l.path]) text (some l.path)) (link c h [l.path] text (some l.path)) :=
  mirrors_link (stack ++ [l.path]) ⟨text, some l.path⟩ (below_push stack l.path)

-- The failure of a file in company is its failure on its own.
theorem compile_eq_error {stack : List Path} {l : Location} (hl : l.Proper) {text : String}
    {failure : Failure} (hfault : failure.fault.OfText)
    (hrun : (link c h (stack ++ [l.path]) text (some l.path)).run t = .error failure) :
    compile c h text (some l.path) = .error failure := by
  rw [compile_eq_link hl, (mirrors_alone stack l text).error hrun hfault.not_circular]
  rfl

-- A fault in a text is met again when the file that is blamed is compiled on its own.
theorem link_blames (hcwd : h.cwd.Proper) (stack : List Path) (a : Template) {failure : Failure}
    (hrun : (link c h stack a.text a.path).run t = .error failure) (hfault : failure.fault.OfText) :
    failure.path = a.path ∨ ∃ l text, l.Proper ∧ failure.path = some l.path ∧ h.textAt l = .ok text ∧
      compile c h text (some l.path) = .error failure := by
  induction stack, a using unvisited_induction (h := h) generalizing t with
  | step stack a ih =>
    cases failsBy_of_link hrun with
    | text hplan => exact .inl rfl
    | lost hplan hname hl => exact .inl rfl
    | circle hfollows hany => exact hfault.elim
    | unreadable hfollows hany htext => exact hfault.elim
    | @entered name l text s _ hfollows hany htext hlink =>
      right
      have hproper := locate_proper hcwd hfollows.2
      rcases ih l text hany htext hlink with hpath | hblamed
      · exact ⟨l, text, hproper, hpath, htext, compile_eq_error hproper hfault hlink⟩
      · exact hblamed

-- Joining a file gives what compiling it gives, and notes its files behind the ones that were noted
-- before. If it fails for what a template says then compiling it fails in the same way, and so does
-- compiling the template that is blamed.
theorem linkFile_alone (c : Compiler) (h : Host) (stack : List Path) (l : Location) (t : Trail)
    (text : String) (hcwd : h.cwd.Proper) (hl : l.Proper) (htext : h.textAt l = .ok text) :
    (∀ nodes t', (linkFile c h stack l).run t = .ok (nodes, t') →
      ∃ r, compile c h text (some l.path) = .ok r ∧ r.program = .ofNodes nodes ∧
        t'.dependencies =
          t.dependencies ++ r.dependencies.filter fun d => !t.dependencies.any (·.same d)) ∧
    (∀ failure, (linkFile c h stack l).run t = .error failure → failure.fault.OfText →
      compile c h text (some l.path) = .error failure ∧
        ∃ l' text', l'.Proper ∧ failure.path = some l'.path ∧ h.textAt l' = .ok text' ∧
          compile c h text' (some l'.path) = .error failure) := by
  rw [linkFile_run, htext]
  constructor
  · intro nodes t' hrun
    split at hrun
    · cases hrun
    · obtain ⟨found, rfl, halone⟩ := (mirrors_alone stack l text).ok hrun
      have hcompile : compile c h text (some l.path) =
          .ok ⟨.ofNodes nodes, (Trail.empty.recordAll found).dependencies,
            (Trail.empty.recordAll found).resolutions⟩ := by
        rw [compile_eq_link hl, halone]
        rfl
      exact ⟨_, hcompile, rfl, t.recordAll_dependencies found⟩
  · intro failure hrun hfault
    split at hrun
    · cases hrun
      exact hfault.elim
    · have halone := compile_eq_error hl hfault hrun
      refine ⟨halone, ?_⟩
      rcases link_blames hcwd _ ⟨text, some l.path⟩ hrun hfault with hpath | hblamed
      · exact ⟨l, text, hl, hpath, htext, halone⟩
      · exact hblamed

-- A template that includes one that is there and one that is not, and a template around it.
private def partedShelf : Host := shelf
  [(shelfPlace "parted.html", .file "\x7b% include 'page' %\x7d\x7b% include 'gone' %\x7d".toUTF8 ⟨1, 0⟩),
   (shelfPlace "around.html", .file "\x7b% include 'parted' %\x7d".toUTF8 ⟨1, 0⟩)]

private def waiting : List Path := [(shelfPlace "other.html").path]

-- What the template that waits has noted already.
private def noted : Trail := ⟨[(shelfPlace "note.html").path], []⟩

theorem linkFile_alone_shelf :
    (∃ nodes t' r, (linkFile shelfCompiler partedShelf waiting (shelfPlace "page.html")).run noted =
        .ok (nodes, t') ∧
      compile shelfCompiler partedShelf shelfPage (some (shelfPlace "page.html").path) = .ok r ∧
      r.program = .ofNodes nodes ∧ t'.dependencies = noted.dependencies ++
        r.dependencies.filter fun d => !noted.dependencies.any (·.same d)) ∧
    ∃ failure, (linkFile shelfCompiler partedShelf waiting (shelfPlace "around.html")).run noted =
        .error failure ∧
      compile shelfCompiler partedShelf "\x7b% include 'parted' %\x7d"
        (some (shelfPlace "around.html").path) = .error failure ∧
      ∃ l' text', l'.Proper ∧ failure.path = some l'.path ∧ partedShelf.textAt l' = .ok text' ∧
        compile shelfCompiler partedShelf text' (some l'.path) = .error failure := by
  have hpage := linkFile_alone shelfCompiler partedShelf waiting (shelfPlace "page.html") noted shelfPage
    (by decide) (by decide) (by decide +kernel)
  have haround := linkFile_alone shelfCompiler partedShelf waiting (shelfPlace "around.html") noted
    "\x7b% include 'parted' %\x7d" (by decide) (by decide) (by decide +kernel)
  constructor
  · have hok : ((linkFile shelfCompiler partedShelf waiting (shelfPlace "page.html")).run noted).isOk =
        true := by decide +kernel
    cases hrun : (linkFile shelfCompiler partedShelf waiting (shelfPlace "page.html")).run noted with
    | error failure =>
      rw [hrun] at hok
      cases hok
    | ok result =>
      obtain ⟨r, hr⟩ := hpage.1 result.1 result.2 hrun
      exact ⟨result.1, result.2, r, rfl, hr⟩
  · have hfails : ((linkFile shelfCompiler partedShelf waiting (shelfPlace "around.html")).run noted).map
        (fun _ => ()) = .error ⟨some (shelfPlace "parted.html").path, .templateNotFound "gone"
          [⟨"/work/templates/gone"⟩, ⟨"/work/templates/gone.html"⟩, ⟨"templates/gone"⟩,
            ⟨"templates/gone.html"⟩]⟩ := by decide +kernel
    cases hrun : (linkFile shelfCompiler partedShelf waiting (shelfPlace "around.html")).run noted with
    | ok result =>
      rw [hrun] at hfails
      cases hfails
    | error failure =>
      rw [hrun] at hfails
      cases hfails
      exact ⟨_, rfl, haround.2 _ hrun trivial⟩

end TemplateEngine.Compile
