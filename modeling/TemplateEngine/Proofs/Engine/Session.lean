import TemplateEngine.Engine.Render
import TemplateEngine.Proofs.Cache.Records
import TemplateEngine.Proofs.Engine.Load

-- Sessions: what happens to an engine and to the files around it, one operation after the other.
-- Whatever the order of the operations, each file of a cache that was empty at first tells of a
-- compilation in the session.
namespace TemplateEngine.Engine

variable {e : Engine} {home : Location} {past past' : List (State × Op)} {s s' : State} {op : Op}
  {name : String} {source : Path} {r : Compile.Compiled}

-- Files are changed by others, at any time that they like.
inductive Op where
  | write (l : Location) (content : ByteArray) (changed : Instant)
  | remove (l : Location)
  | makeDirectory (l : Location) (changed : Instant)
  | tick (now : Instant)
  | compile (name : String)
  | render (name : String) (vars : Value)
  | forget (key : Cache.Key)
  | clear

def onTree (s : State) (f : FileTree → FileTree) : State :=
  { s with host := { s.host with tree := f s.host.tree } }

-- Writing and making directories do nothing where a file system refuses them.
def Op.perform (e : Engine) (s : State) : Op → State
  | write l content changed => onTree s fun t =>
    if l.Proper ∧ t.isDirectoryAt l.parent = true ∧ t.isDirectoryAt l = false then
      t.set l (.file content changed)
    else t
  | remove l => onTree s (·.erase l)
  | makeDirectory l changed => onTree s fun t =>
    if l.Proper ∧ t.isDirectoryAt l.parent = true ∧ (t.entry? l).isNone = true then
      t.set l (.directory changed)
    else t
  | tick now => { s with host := { s.host with clock := now } }
  | compile name => ((e.compile name).run s).2
  | render name vars => ((e.render name vars).run s).2
  | forget key => ((onFiles (e.cache.remove key)).run s).2
  | clear => ((onFiles e.cache.clear).run s).2

-- The template that an operation compiles, if any.
def Op.template? : Op → Option String
  | compile name => some name
  | render name vars => if (bindingsOf vars).toBool then some name else none
  | _ => none

-- The operations of a session, each with the state in which it was performed.
def trace (e : Engine) (s : State) : List Op → List (State × Op)
  | [] => []
  | op :: ops => (s, op) :: trace e (op.perform e s) ops

def after (e : Engine) (s : State) (ops : List Op) : State := ops.foldl (fun s op => op.perform e s) s

theorem trace_concat (e : Engine) (s : State) (ops : List Op) (op : Op) :
    e.trace s (ops ++ [op]) = e.trace s ops ++ [(e.after s ops, op)] := by
  induction ops generalizing s with
  | nil => rfl
  | cons first ops ih => rw [List.cons_append, trace, ih]; rfl

theorem compile_run (e : Engine) (name : String) (s : State) :
    (e.compile name).run s =
      match e.resolve s.host name with
      | .error failure => (.error failure, s)
      | .ok source => (e.load source).run s := by
  unfold compile
  rw [run_bind, ask_run]
  cases e.resolve s.host name <;> rfl

theorem load_of_compile {e : Engine} {name : String} {s s' : State} {loaded : Loaded}
    (hok : (e.compile name).run s = (.ok loaded, s')) :
    ∃ source, e.resolve s.host name = .ok source ∧ (e.load source).run s = (.ok loaded, s') := by
  rw [compile_run] at hok
  cases hresolve : e.resolve s.host name with
  | error failure =>
    rw [hresolve] at hok
    cases hok
  | ok source =>
    rw [hresolve] at hok
    exact ⟨source, rfl, hok⟩

theorem render_run (e : Engine) (name : String) (vars : Value) (s : State) :
    ((e.render name vars).run s).2 =
      if (bindingsOf vars).toBool = true then ((e.compile name).run s).2 else s := by
  unfold render
  rw [run_bind]
  cases bindingsOf vars with
  | error failure => rfl
  | ok bindings =>
    change ((e.compile name >>= fun loaded => liftExcept (e.run name loaded.program bindings)).run s).2 = _
    rw [run_bind, if_pos (by rfl)]
    cases hrun : (e.compile name).run s with
    | mk result s' =>
      cases result with
      | error failure => rfl
      | ok loaded =>
        dsimp only
        cases e.run name loaded.program bindings <;> rfl

-- Operations on templates leave behind what a compilation leaves behind.
theorem perform_template (hop : op.template? = some name) (s : State) :
    op.perform e s = ((e.compile name).run s).2 := by
  cases op with
  | compile other =>
    cases hop
    rfl
  | render other vars =>
    simp only [Op.template?] at hop
    split at hop
    · next hvars =>
      cases hop
      dsimp only [Op.perform]
      rw [render_run, if_pos hvars]
    · cases hop
  | _ => cases hop

-- What a key of a source and its dependencies would be made of.
def materialOf (e : Engine) (h : Host) (source : Path) (dependencies : List Path) : List String :=
  match (source :: dependencies).mapM (Cache.stamped h) with
  | .ok files => [Cache.Key.material e.settings.salt files]
  | .error _ => []

-- The texts that loading a template computes digests of for its keys: what the index names, and what
-- is compiled unless that is found.
def materials (e : Engine) (s : State) (name : String) : List String :=
  match e.resolve s.host name with
  | .error _ => []
  | .ok source =>
    ((e.index? s.host source).toList.flatMap fun i => e.materialOf s.host source i.dependencies) ++
      match (e.cached? source).run s with
      | (.ok none, t) =>
        match e.compileFile t.host source with
        | .ok r => e.materialOf t.host source r.dependencies
        | .error _ => []
      | _ => []

theorem mem_materialOf {h : Host} {dependencies : List Path} {files : List Cache.Stamped}
    (hf : (source :: dependencies).mapM (Cache.stamped h) = .ok files) :
    Cache.Key.material e.settings.salt files ∈ e.materialOf h source dependencies := by
  unfold materialOf
  rw [hf]
  exact List.mem_singleton_self _

structure CompiledIn (e : Engine) (past : List (State × Op)) (source : Path) (s : State) (name : String)
    (r : Compile.Compiled) : Prop where
  past : ∃ op, (s, op) ∈ past ∧ op.template? = some name
  resolved : e.resolve s.host name = .ok source
  compiled : e.compileFile s.host source = .ok r

theorem CompiledIn.mono (h : e.CompiledIn past source s name r) (hpast : past ⊆ past') :
    e.CompiledIn past' source s name r := by
  obtain ⟨op, hmem, hop⟩ := h.past
  exact ⟨⟨op, hpast hmem, hop⟩, h.resolved, h.compiled⟩

-- A compilation whose key was made of some files.
structure Recorded (e : Engine) (past : List (State × Op)) (source : Path) (files : List Cache.Stamped)
    (r : Compile.Compiled) : Prop where
  compilation : ∃ s name, e.CompiledIn past source s name r ∧
    (source :: r.dependencies).mapM (Cache.stamped s.host) = .ok files ∧
    Cache.Key.material e.settings.salt files ∈ e.materials s name

-- Where a file of code or of metadata in the cache comes from.
def Origin (e : Engine) (past : List (State × Op)) (name : String) (content : ByteArray) : Prop :=
  ∃ source files r, e.Recorded past source files r ∧
    (name = (Cache.Key.ofFiles e.settings.salt files).digits ++ Cache.codeSuffix ∧
        content = r.code.toUTF8 ∨
      name = (Cache.Key.ofFiles e.settings.salt files).digits ++ Cache.metaSuffix ∧
        ∃ t, content = (Cache.Metadata.text ⟨source, r.dependencies, t⟩).toUTF8)

theorem Origin.mono {content : ByteArray} (ho : e.Origin past name content) (hpast : past ⊆ past') : e.Origin past' name content := by
  obtain ⟨source, files, r, ⟨s, name, hcompiled, hrest⟩, hfile⟩ := ho
  exact ⟨source, files, r, ⟨s, name, hcompiled.mono hpast, hrest⟩, hfile⟩

-- What holds in every state of a session.
structure Sound (e : Engine) (home : Location) (past : List (State × Op)) (s : State) : Prop where
  valid : s.host.Valid
  cwd : s.host.cwd = home
  origin : ∀ name content changed,
    s.host.tree.entry? (e.cache.root home ++ [name]) = some (.file content changed) →
      e.Origin past name content

theorem Sound.of_adds {new : Location → Location → ByteArray → Prop} (hs : e.Sound home past s)
    (hpast : past ⊆ past') (hadds : s.host.Adds new s'.host)
    (hnew : ∀ name content, new home (e.cache.root home ++ [name]) content →
      e.Origin past' name content) :
    e.Sound home past' s' := by
  refine ⟨hadds.valid hs.valid, hadds.cwd.trans hs.cwd, fun name content changed he => ?_⟩
  rcases hadds.files _ content changed he with he | he
  · exact (hs.origin name content changed he).mono hpast
  · rw [hs.cwd] at he
    exact hnew name content he

theorem Sound.of_quiet (hs : e.Sound home past s)
    (hadds : s.host.Adds (fun _ _ _ => False) s'.host) :
    e.Sound home (past ++ [(s, op)]) s' :=
  hs.of_adds (List.subset_append_left _ _) hadds fun _ _ h => h.elim

-- Whether the file that a template name stands for, and all that it leads to, lie outside the cache.
def TemplateApart (e : Engine) (h : Host) (name : String) : Prop :=
  ∀ l, Compile.locate e.settings.compileOptions h name none = .ok l →
    ¬e.InCache h.cwd l ∧
      ∀ text, h.textAt l = .ok text →
        (Compile.Template.mk text (some l.path)).Outside e.compiler h e.InCache

-- Whether an operation leaves writing into the cache to the engine, and templates are not in there.
def Op.Apart (e : Engine) (s : State) (op : Op) : Prop :=
  (∀ name, op.template? = some name → e.TemplateApart s.host name) ∧
    match op with
    | write l _ _ => ¬e.InCache s.host.cwd l
    | forget key => key.Plain
    | _ => True

theorem compileFile_eq_ok {h : Host} :
    e.compileFile h source = .ok r ↔
      ∃ text, h.read source = .ok text ∧ Compile.compile e.compiler h text source = .ok r := by
  unfold compileFile
  cases hs : h.read source with
  | error fault =>
    constructor
    · intro hr
      cases hr
    · rintro ⟨text, htext, -⟩
      cases htext
  | ok text =>
    simp only
    cases hc : Compile.compile e.compiler h text source with
    | error failure =>
      constructor
      · intro hr
        cases hr
      · rintro ⟨text', htext, hr⟩
        cases htext
        rw [hc] at hr
        cases hr
    | ok r' =>
      constructor
      · intro hr
        cases hr
        exact ⟨text, rfl, hc⟩
      · rintro ⟨text', htext, hr⟩
        cases htext
        rw [hc] at hr
        cases hr
        rfl

-- A compilation comes from a proper place, and all that it notes is found where it noted it.
theorem compileFile_holds {h : Host} {l : Location} (hl : l.Proper)
    (hr : e.compileFile h l.path = .ok r) :
    ∀ q ∈ r.resolutions, q.holds e.settings.compileOptions h = true := by
  obtain ⟨text, -, hcompile⟩ := compileFile_eq_ok.mp hr
  have hholds := Compile.resolutions_hold (some l) (fun _ => hl.of_mem_some) hcompile
  exact hholds

theorem resolve_eq_ok {h : Host} (hs : e.resolve h name = .ok source) :
    ∃ l, Compile.locate e.settings.compileOptions h name none = .ok l ∧ source = l.path := by
  unfold resolve at hs
  split at hs
  · next l hl =>
    cases hs
    exact ⟨l, hl, rfl⟩
  · cases hs

theorem textAt_of_read {h : Host} {l : Location} (hl : l.Proper) {text : String}
    (hr : h.read l.path = .ok text) : h.textAt l = .ok text := by
  obtain ⟨m, hm, hs⟩ := bind_eq_ok hr
  rw [(FileTree.resolve_eq_ok hm).2, FileTree.place_path hl] at hs
  exact hs

-- What is compiled after entries were removed is what would have been compiled before.
theorem compileFile_of_trims {h t u : Host} (hv : h.Valid) (ht : h.Trims e.InCache t)
    (hu : t.Trims e.InCache u) (happart : e.TemplateApart h name) (hs : e.resolve h name = .ok source)
    (hr : e.compileFile u source = .ok r) : e.compileFile t source = .ok r := by
  obtain ⟨l, hl, rfl⟩ := resolve_eq_ok hs
  have hproper := Compile.locate_proper hv.cwd hl
  obtain ⟨text, htext, hcompile⟩ := compileFile_eq_ok.mp hr
  have hread := hu.read_of_read htext
  have hout := (happart l hl).2 text (textAt_of_read hproper (ht.read_of_read hread))
  have hbefore := Compile.compile_of_trims ht (some l) (fun _ => hproper.of_mem_some) hout
  have hafter := Compile.compile_of_trims (ht.trans hu) (some l) (fun _ => hproper.of_mem_some) hout
  refine compileFile_eq_ok.mpr ⟨text, hread, ?_⟩
  exact hbefore.trans (hafter.symm.trans hcompile)

theorem mapM_stamped_of_trims {t u : Host} (hu : t.Trims e.InCache u) (hv : u.Valid) {ps : List Path}
    {files : List Cache.Stamped} (hf : ps.mapM (Cache.stamped u) = .ok files) :
    ps.mapM (Cache.stamped t) = .ok files := by
  induction ps generalizing files with
  | nil => exact hf
  | cons p ps ih =>
    rw [List.mapM_cons] at hf ⊢
    obtain ⟨first, hfirst, hf⟩ := bind_eq_ok hf
    obtain ⟨others, hothers, hf⟩ := bind_eq_ok hf
    have hstamped : Cache.stamped t p = .ok first := by
      obtain ⟨rfl, hchanged⟩ := Cache.stamped_eq_ok hfirst
      unfold Cache.stamped
      rw [hu.changed_of_changed hv hchanged]
    rw [hstamped, ih hothers]
    exact hf

-- A compilation that a load ends in is one of the session.
theorem Renewed.recorded (past : List (State × Op)) {t u : State} {result : Except Failure Loaded}
    (hv : s.host.Valid) (hop : op.template? = some name) (happart : e.TemplateApart s.host name)
    (hs : e.resolve s.host name = .ok source) (hmiss : (e.cached? source).run s = (.ok none, t))
    (ht : e.Evicted s t) (hu : e.Evicted t u) (hrenewed : e.Renewed source u s' result) :
    ∃ r files, e.CompiledIn (past ++ [(s, op)]) source s name r ∧
      e.Recorded (past ++ [(s, op)]) source files r ∧
      u.host.Adds (e.Keeping source (.ofFiles e.settings.salt files) r) s'.host ∧
      ∀ loaded, result = .ok loaded →
        loaded.source = source ∧ loaded.code = r.code ∧ loaded.dependencies = r.dependencies := by
  obtain ⟨⟨r, k, hr, hk, hadds, hloaded⟩, -⟩ := hrenewed
  obtain ⟨files, hfiles, rfl⟩ := Cache.keyOf_eq_ok hk
  have hmiddle := compileFile_of_trims hv ht.trims hu.trims happart hs hr
  have hfirst := compileFile_of_trims hv (.refl _ _) (ht.trims.trans hu.trims) happart hs hr
  have hstamps := mapM_stamped_of_trims hu.trims hu.valid hfiles
  have hcompiled : e.CompiledIn (past ++ [(s, op)]) source s name r := ⟨⟨op, by simp, hop⟩, hs, hfirst⟩
  refine ⟨r, files, hcompiled, ⟨s, name, hcompiled, ?_, ?_⟩, hadds, hloaded⟩
  · exact mapM_stamped_of_trims ht.trims ht.valid hstamps
  · unfold materials
    rw [hs]
    simp only
    rw [hmiss]
    refine List.mem_append_right _ ?_
    simp only
    rw [hmiddle]
    exact mem_materialOf hstamps

-- Indexes lie deeper than code and metadata.
private theorem index_notMem {file : String}
    (h : e.cache.root home ++ [name] = e.cache.root home ++ ["index", file]) : False := by
  have hlength := congrArg List.length h
  simp at hlength

theorem Sound.compile (hs : e.Sound home past s) (hop : op.template? = some name)
    (happart : e.TemplateApart s.host name) :
    e.Sound home (past ++ [(s, op)]) ((e.compile name).run s).2 := by
  rw [compile_run]
  cases hresolve : e.resolve s.host name with
  | error failure => exact hs.of_quiet (Host.Adds.refl _ _)
  | ok source =>
    dsimp only
    have hcases := e.load_cases source hs.valid
    generalize (e.load source).run s = out at hcases ⊢
    rcases hcases with
      ⟨loaded, -, -, hhost, -⟩ | ⟨-, hevicted⟩ | ⟨t, u, hmiss, ht, hu, hrenewed⟩
    · refine hs.of_quiet ?_
      rw [hhost]
      exact Host.Adds.refl _ _
    · exact hs.of_quiet hevicted.adds
    · obtain ⟨r, files, -, hrecorded, hadds, -⟩ :=
        hrenewed.recorded past hs.valid hop happart hresolve hmiss ht hu
      refine hs.of_adds (List.subset_append_left _ _) ((ht.trans hu).adds.trans _ _ _ _ hadds) ?_
      rintro file content (⟨hl, hc⟩ | ⟨hl, hc⟩ | hl)
      · obtain ⟨-, hfile⟩ := List.append_inj' hl rfl
        exact ⟨source, files, r, hrecorded, .inl ⟨List.singleton_inj.mp hfile, hc⟩⟩
      · obtain ⟨-, hfile⟩ := List.append_inj' hl rfl
        exact ⟨source, files, r, hrecorded, .inr ⟨List.singleton_inj.mp hfile, hc⟩⟩
      · exact (index_notMem hl).elim

-- What is added by an operation that compiles nothing was written by others.
theorem perform_quiet (e : Engine) {op : Op} (hop : op.template? = none) (s : State) :
    s.host.Adds (fun _ l content => ∃ changed, op = .write l content changed) (op.perform e s).host := by
  cases op with
  | write l content changed =>
    dsimp only [Op.perform, onTree]
    split
    · next hfits =>
      refine (Host.adds_set_file (fun _ => hfits.1) hfits.2.1 hfits.2.2 content changed).mono ?_
      rintro m c ⟨rfl, rfl⟩
      exact ⟨changed, rfl⟩
    · exact Host.Adds.refl _ _
  | remove l => exact Host.adds_erase _ s.host l
  | makeDirectory l changed =>
    dsimp only [Op.perform, onTree]
    split
    · next hfits => exact Host.adds_set_directory _ (fun _ => hfits.1) hfits.2.1 changed
    · exact Host.Adds.refl _ _
  | tick now => exact ⟨rfl, fun hv => ⟨hv.tree, hv.cwd⟩, fun _ _ _ => .inl⟩
  | compile name => cases hop
  | render name vars =>
    simp only [Op.template?] at hop
    split at hop
    · cases hop
    · next hvars =>
      dsimp only [Op.perform]
      rw [render_run, if_neg hvars]
      exact Host.Adds.refl _ _
  | forget key => exact (e.cache.remove_adds key s.host).mono fun _ _ h => h.elim
  | clear => exact (e.cache.clear_adds s.host).mono fun _ _ h => h.elim

-- Every operation keeps the cache in line with the session.
theorem Sound.perform (hs : e.Sound home past s) (happart : op.Apart e s) :
    e.Sound home (past ++ [(s, op)]) (op.perform e s) := by
  obtain ⟨htemplate, hrest⟩ := happart
  cases hop : op.template? with
  | some name =>
    rw [perform_template hop]
    exact hs.compile hop (htemplate name hop)
  | none =>
    refine hs.of_adds (List.subset_append_left _ _) (e.perform_quiet hop s) ?_
    rintro name content ⟨changed, rfl⟩
    refine absurd ?_ hrest
    rw [InCache, hs.cwd]
    exact List.prefix_append _ _

theorem Sound.after (ops : List Op) (hs : e.Sound home past s)
    (happart : ∀ p ∈ e.trace s ops, p.2.Apart e p.1) :
    e.Sound home (past ++ e.trace s ops) (e.after s ops) := by
  induction ops generalizing past s with
  | nil => simpa [trace, Engine.after] using hs
  | cons op ops ih =>
    have hfirst := hs.perform (happart (s, op) (by simp [trace]))
    have hrest := ih hfirst fun p hp => happart p (by simp [trace, hp])
    simpa [trace, Engine.after] using hrest

theorem Sound.of_mem_trace {ops : List Op} (hs : e.Sound home past s) (happart : ∀ p ∈ e.trace s ops, p.2.Apart e p.1)
    {q : State × Op} (hq : q ∈ e.trace s ops) : ∃ past', e.Sound home past' q.1 := by
  induction ops generalizing past s with
  | nil => cases hq
  | cons op ops ih =>
    rcases List.mem_cons.mp hq with rfl | hq
    · exact ⟨past, hs⟩
    · have hfirst := hs.perform (happart (s, op) (by simp [trace]))
      exact ih hfirst (fun p hp => happart p (by simp [trace, hp])) hq

-- A cache in which there is nothing is in line with a session that has not begun.
theorem sound_start (hv : s.host.Valid)
    (hvacant : ∀ l entry, s.host.tree.entry? l = some entry → e.InCache s.host.cwd l →
      l = e.cache.root s.host.cwd) : e.Sound s.host.cwd [] s := by
  refine ⟨hv, rfl, fun name content changed he => ?_⟩
  have hl := hvacant _ _ he (List.prefix_append _ _)
  simp at hl

end TemplateEngine.Engine
