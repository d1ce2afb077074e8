import TemplateEngine.Proofs.Compile.Cycles
import TemplateEngine.Proofs.Files.Canonical

-- A text joined as the file that it stands in, and joined inline. Inline, the file is not on the stack
-- and the template directory is all that is searched, which is where the file stands. A template that
-- leads back to its file is refused in either way, inline one round later.
namespace TemplateEngine.Compile

variable {α β : Type} {c : Compiler} {h : Host}

-- Whatever one run gives, from some trail, another one gives from every trail.
def Grants (x y : Linking α) : Prop :=
  ∀ t a t', x.run t = .ok (a, t') → ∀ u, ∃ u', y.run u = .ok (a, u')

theorem grants_pure (a : α) : Grants (pure a) (pure a) := by
  rintro t _ _ ⟨⟩ u
  exact ⟨u, rfl⟩

theorem Grants.bind {x y : Linking α} {f g : α → Linking β} (hxy : Grants x y)
    (hfg : ∀ a, Grants (f a) (g a)) : Grants (x >>= f) (y >>= g) := by
  intro t b t' hrun u
  rw [StateT.run_bind] at hrun
  obtain ⟨⟨a, s⟩, hx, hf⟩ := bind_eq_ok hrun
  obtain ⟨v, hy⟩ := hxy t a s hx u
  obtain ⟨u', hg⟩ := hfg a s b t' hf v
  refine ⟨u', ?_⟩
  rw [StateT.run_bind, hy]
  exact hg

theorem grants_mapM {f g : String → Linking β} {names : List String}
    (hfg : ∀ name ∈ names, Grants (f name) (g name)) : Grants (names.mapM f) (names.mapM g) := by
  induction names with
  | nil => exact grants_pure []
  | cons name names ih =>
    obtain ⟨hname, hnames⟩ := List.forall_mem_cons.mp hfg
    rw [List.mapM_cons, List.mapM_cons]
    exact hname.bind fun b => (ih hnames).bind fun bs => grants_pure (b :: bs)

-- Two templates with one text that find the same under all names.
structure Twins (c : Compiler) (h : Host) (a b : Template) : Prop where
  text : b.text = a.text
  finds : ∀ name, locate c.options h name b.path = locate c.options h name a.path

theorem Twins.refl (c : Compiler) (h : Host) (a : Template) : Twins c h a a := ⟨rfl, fun _ => rfl⟩

theorem Twins.symm {a b : Template} (ht : Twins c h a b) : Twins c h b a :=
  ⟨ht.text.symm, fun name => (ht.finds name).symm⟩

theorem Twins.refers {a b d : Template} (ht : Twins c h a b) (hrefers : Refers c h a d) : Refers c h b d := by
  obtain ⟨name, l, ⟨hplan, hl⟩, hs, hpath⟩ := hrefers
  exact ⟨name, l, ⟨ht.text ▸ hplan, (ht.finds name).trans hl⟩, hs, hpath⟩

theorem Twins.transGen {a b d : Template} (ht : Twins c h a b) (hd : Relation.TransGen (Refers c h) a d) :
    Relation.TransGen (Refers c h) b d := by
  obtain ⟨first, hfirst, hrest⟩ := Relation.TransGen.head'_iff.mp hd
  exact Relation.TransGen.head' (ht.refers hfirst) hrest

-- Of the paths on one stack, those that a template reaches are on another.
def Clear (c : Compiler) (h : Host) (a : Template) (stack' stack : List Path) : Prop :=
  ∀ b, Relation.TransGen (Refers c h) a b → ∀ p ∈ b.path,
    stack'.any (·.same p) = true → stack.any (·.same p) = true

theorem Clear.push {a b : Template} {stack stack' : List Path} (hclear : Clear c h a stack' stack)
    (hrefers : Refers c h a b) (p : Path) : Clear c h b (stack' ++ [p]) (stack ++ [p]) := by
  intro d hd q hq hany
  rw [List.any_append, Bool.or_eq_true] at hany ⊢
  exact hany.imp_left (hclear d (.head hrefers hd) q hq)

-- A text that is joined is joined just so for a twin, as long as what waits for the twin is not reached.
theorem grants_link (stack : List Path) (a : Template) {b : Template} {stack' : List Path}
    (ht : Twins c h a b) (hclear : Clear c h a stack' stack) :
    Grants (link c h stack a.text a.path) (link c h stack' b.text b.path) := by
  induction stack, a using unvisited_induction (h := h) generalizing b stack' with
  | step stack a ih =>
    rw [link_eq, link_eq, ht.text]
    cases hplan : plan c a.text with
    | error fault =>
      rintro t _ _ ⟨⟩
    | ok p =>
      simp only [map_eq_pure_bind]
      refine (grants_mapM fun name hname => ?_).bind fun bodies => grants_pure (p.assemble bodies)
      intro t nodes t' hrun u
      obtain ⟨l, text, hl, hany, hs, hlink⟩ := visit_run_ok hrun
      have hrefers : Refers c h a ⟨text, some l.path⟩ := ⟨name, l, ⟨⟨p, hplan, hname⟩, hl⟩, hs, rfl⟩
      have hany' : ¬stack'.any (·.same l.path) = true :=
        fun hmem => hany (hclear _ (.single hrefers) _ rfl hmem)
      rw [visit_run, (ht.finds name).trans hl]
      dsimp only
      rw [linkFile_run, if_neg hany', hs]
      exact ih l text hany hs (.refl c h _) (hclear.push hrefers l.path) _ _ _ hlink _

section Inline

variable {l dir : Location} {text file : String}

-- What a file in the template directory names is looked for there, and once only.
theorem locate_inline {options : Options} (hdir : options.templateDir = dir.path) (hproper : dir.Proper)
    (hfile : IsFileName file) (name : String) :
    locate options h name (some (Location.path (dir ++ [file]))) = locate options h name none := by
  have hsearch : searchDirs options (some (Location.path (dir ++ [file]))) = searchDirs options none := by
    unfold searchDirs
    rw [Option.bind_some, Location.parent?_path_concat hproper hfile, hdir]
    dsimp only
    rw [if_pos (Path.same_self _), Option.bind_none]
  unfold locate allCandidates
  rw [hsearch]

theorem twins_inline (hdir : c.options.templateDir = dir.path) (hproper : dir.Proper) (hfile : IsFileName file)
    (text : String) : Twins c h ⟨text, some (Location.path (dir ++ [file]))⟩ ⟨text, none⟩ :=
  ⟨rfl, fun name => (locate_inline hdir hproper hfile name).symm⟩

-- A text that is joined inline reaches no file that it is a twin of: from there it would come by that
-- file again.
theorem clear_inline (hcwd : h.cwd.Proper) (hl : l.Proper) (hs : h.textAt l = .ok text)
    (ht : Twins c h ⟨text, none⟩ ⟨text, some l.path⟩) {t t' : Trail} {nodes : List Node}
    (hrun : (link c h [] text none).run t = .ok (nodes, t')) : Clear c h ⟨text, none⟩ [l.path] [] := by
  intro b hb p hp hany
  exfalso
  obtain ⟨m, hm, hpath, htext⟩ := transGen_target hcwd hb
  rw [hpath, Option.mem_some_iff] at hp
  subst hp
  have hsame : l.path.same m.path = true := by simpa using hany
  obtain rfl := (Location.path_same_iff hl hm).mp hsame
  obtain rfl : b = ⟨text, some l.path⟩ := by
    obtain ⟨other, path⟩ := b
    obtain rfl : text = other := Except.ok.inj (hs.symm.trans htext)
    exact congrArg (Template.mk text) hpath
  exact not_transGen_self (a := ⟨text, none⟩) hcwd hrun (by nofun) hb.to_reflTransGen (ht.transGen hb)

theorem compile_of_run {source : String} {path : Option Path} {nodes : List Node} {t : Trail}
    (hrun : (link c h (path.map h.absolute).toList source (path.map h.absolute)).run .empty = .ok (nodes, t)) :
    compile c h source path = .ok ⟨.ofNodes nodes, t.dependencies, t.resolutions⟩ := by
  unfold compile
  dsimp only
  rw [hrun]

-- Compiled inline, the text of a file gives the program that it gives as that file, or fails as well.
theorem compile_inline (hcwd : h.cwd.Proper) (hl : l.Proper) (hs : h.textAt l = .ok text)
    (ht : Twins c h ⟨text, some l.path⟩ ⟨text, none⟩) (program : Program) :
    (∃ r, compile c h text (some l.path) = .ok r ∧ r.program = program) ↔
      ∃ r, compile c h text none = .ok r ∧ r.program = program := by
  have habsolute : (some l.path).map h.absolute = some l.path := by
    rw [Option.map_some, Host.absolute_path hl]
  constructor
  · rintro ⟨r, hr, rfl⟩
    obtain ⟨nodes, t, hrun, rfl⟩ := compile_run_ok hr
    rw [habsolute] at hrun
    have hclear : Clear c h ⟨text, some l.path⟩ [] [l.path] := fun _ _ _ _ hany => absurd hany (by simp)
    obtain ⟨t', hrun'⟩ := grants_link _ ⟨text, some l.path⟩ ht hclear _ _ _ hrun .empty
    exact ⟨_, compile_of_run hrun', rfl⟩
  · rintro ⟨r, hr, rfl⟩
    obtain ⟨nodes, t, hrun, rfl⟩ := compile_run_ok hr
    have hclear := clear_inline hcwd hl hs ht.symm hrun
    obtain ⟨t', hrun'⟩ := grants_link _ ⟨text, none⟩ ht.symm hclear _ _ _ hrun .empty
    have hrun : (link c h ((some l.path).map h.absolute).toList text ((some l.path).map h.absolute)).run .empty =
        .ok (nodes, t') := by
      rw [habsolute]
      exact hrun'
    exact ⟨_, compile_of_run hrun, rfl⟩

end Inline

section Found

variable {options : Options} {origin : Option Path} {dir p : Path} {name : String}

theorem isAbsolute_of_mem_candidates {extension : String} (hdir : dir.isAbsolute = true)
    (hp : p ∈ candidates dir name extension) : p.isAbsolute = true := by
  have hjoined : ∃ below, p = dir.join below := by
    unfold candidates at hp
    split at hp
    · exact ⟨_, List.mem_singleton.mp hp⟩
    · rcases List.mem_cons.mp hp with hp | hp
      · exact ⟨_, hp⟩
      · exact ⟨_, List.mem_singleton.mp hp⟩
  obtain ⟨below, rfl⟩ := hjoined
  exact Path.isAbsolute_join_of hdir below

theorem isAbsolute_of_mem_searchDirs (htemplates : options.templateDir.isAbsolute = true)
    (horigin : ∀ q ∈ origin, ∃ l : Location, l.Proper ∧ q = l.path) (hdir : dir ∈ searchDirs options origin) :
    dir.isAbsolute = true := by
  unfold searchDirs at hdir
  split at hdir
  · rwa [List.mem_singleton.mp hdir]
  · next beside hbeside =>
    obtain ⟨q, rfl, hq⟩ := Option.bind_eq_some_iff.mp hbeside
    obtain ⟨l, hl, rfl⟩ := horigin q rfl
    have habsolute := Location.isAbsolute_parent? hl hq
    split at hdir
    · rwa [List.mem_singleton.mp hdir]
    · rcases List.mem_cons.mp hdir with rfl | hdir
      · exact habsolute
      · rwa [List.mem_singleton.mp hdir]

-- Where the template directory is given from the root, the path of a template that was found leads there.
theorem resolve_located (hv : h.Valid) (htemplates : options.templateDir.isAbsolute = true)
    (horigin : ∀ q ∈ origin, ∃ l : Location, l.Proper ∧ q = l.path) {l : Location}
    (hl : locate options h name origin = .ok l) : h.resolve l.path = .ok l := by
  obtain ⟨q, hq, hfound⟩ := List.exists_of_findSome?_eq_some (locate_eq_ok hl)
  obtain ⟨hr, content, changed, he⟩ := fileAt?_eq_some_iff.mp hfound
  obtain ⟨dir, hdir, hq⟩ := List.mem_flatMap.mp hq
  exact Host.resolve_resolved hv
    (isAbsolute_of_mem_candidates (isAbsolute_of_mem_searchDirs htemplates horigin hdir) hq) hr he

end Found

end TemplateEngine.Compile
