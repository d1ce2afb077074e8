import TemplateEngine.Proofs.Compile.Reach

-- What the trail of a joined template holds: exactly the references that were followed.
namespace TemplateEngine.Compile

-- A trail only grows, at its end.
def Trail.Within (t t' : Trail) : Prop :=
  t.dependencies <+: t'.dependencies ∧ t.resolutions <+: t'.resolutions

theorem Trail.Within.refl (t : Trail) : t.Within t := ⟨List.prefix_rfl, List.prefix_rfl⟩

theorem Trail.Within.trans {t u v : Trail} (h : t.Within u) (h' : u.Within v) : t.Within v :=
  ⟨h.1.trans h'.1, h.2.trans h'.2⟩

theorem Trail.within_record (t : Trail) (name : String) (origin : Option Path) (path : Path) :
    t.Within (t.record name origin path) := by
  constructor
  · unfold Trail.record
    dsimp only
    split
    · exact List.prefix_rfl
    · exact List.prefix_append _ _
  · unfold Trail.record
    dsimp only
    split
    · exact List.prefix_rfl
    · exact List.prefix_append _ _

theorem sameOrigin_self (origin : Option Path) : sameOrigin origin origin = true := by
  cases origin <;> simp [sameOrigin, Path.same]

theorem Trail.record_dependencies (t : Trail) (name : String) (origin : Option Path) (path : Path) :
    ∃ d ∈ (t.record name origin path).dependencies, d.same path = true := by
  unfold Trail.record
  dsimp only
  split
  · next hd => simpa using hd
  · exact ⟨path, by simp, by simp [Path.same]⟩

theorem Trail.record_resolutions (t : Trail) (name : String) (origin : Option Path) (path : Path) :
    ∃ r ∈ (t.record name origin path).resolutions, r.name = name ∧ sameOrigin r.origin origin = true := by
  unfold Trail.record
  dsimp only
  split
  · next hr => simpa using hr
  · exact ⟨⟨name, origin, path⟩, by simp, rfl, sameOrigin_self origin⟩

theorem Trail.mem_record {t : Trail} {name : String} {origin : Option Path} {path : Path}
    {r : Resolution} (h : r ∈ (t.record name origin path).resolutions) :
    r ∈ t.resolutions ∨ r = ⟨name, origin, path⟩ := by
  unfold Trail.record at h
  dsimp only at h
  split at h
  · exact .inl h
  · simpa using h

theorem Trail.mem_record_dependencies {t : Trail} {name : String} {origin : Option Path}
    {path d : Path} (h : d ∈ (t.record name origin path).dependencies) :
    d ∈ t.dependencies ∨ d = path := by
  unfold Trail.record at h
  dsimp only at h
  split at h
  · exact .inl h
  · simpa using h

-- A walk over names that succeeds visits every name and nothing else, and relates the trails around
-- each visit by any preorder that every visit keeps.
theorem mapM_run_ok {f : String → Linking (List Node)} {R : Trail → Trail → Prop}
    (hrefl : ∀ t, R t t) (htrans : ∀ t u v, R t u → R u v → R t v) {names : List String}
    (hf : ∀ name ∈ names, ∀ t body t', (f name).run t = .ok (body, t') → R t t')
    {t t' : Trail} {bodies : List (List Node)} (hrun : (names.mapM f).run t = .ok (bodies, t')) :
    R t t' ∧ (∀ name ∈ names, ∃ s body s', R t s ∧ (f name).run s = .ok (body, s') ∧ R s' t') ∧
      ∀ body ∈ bodies, ∃ name ∈ names, ∃ s s', (f name).run s = .ok (body, s') := by
  induction names generalizing t bodies with
  | nil =>
    cases hrun
    exact ⟨hrefl _, fun name hname => absurd hname (by simp), fun body hbody => absurd hbody (by simp)⟩
  | cons name names ih =>
    rw [List.mapM_cons, StateT.run_bind] at hrun
    cases hfirst : (f name).run t with
    | error failure => rw [hfirst] at hrun; cases hrun
    | ok first =>
      obtain ⟨body, s⟩ := first
      rw [hfirst] at hrun
      change ((names.mapM f >>= fun bodies => pure (body :: bodies)).run s) = _ at hrun
      rw [StateT.run_bind] at hrun
      cases hrest : (names.mapM f).run s with
      | error failure => rw [hrest] at hrun; cases hrun
      | ok rest =>
        obtain ⟨others, s'⟩ := rest
        rw [hrest] at hrun
        cases hrun
        have hts := hf name (by simp) t body s hfirst
        obtain ⟨hst, heach, hbodies⟩ := ih (fun n hn => hf n (by simp [hn])) hrest
        refine ⟨htrans _ _ _ hts hst, fun n hn => ?_, fun b hb => ?_⟩
        · rcases List.mem_cons.mp hn with rfl | hn
          · exact ⟨t, body, s, hrefl t, hfirst, hst⟩
          · obtain ⟨u, b, u', hu, hb, hu'⟩ := heach n hn
            exact ⟨u, b, u', htrans _ _ _ hts hu, hb, hu'⟩
        · rcases List.mem_cons.mp hb with rfl | hb
          · exact ⟨name, by simp, t, s, hfirst⟩
          · obtain ⟨n, hn, hrun⟩ := hbodies b hb
            exact ⟨n, by simp [hn], hrun⟩

theorem mapM_run_error {f : String → Linking (List Node)} {names : List String} {t : Trail}
    {failure : Failure} (hrun : (names.mapM f).run t = .error failure) :
    ∃ name ∈ names, ∃ s, (f name).run s = .error failure := by
  induction names generalizing t with
  | nil => cases hrun
  | cons name names ih =>
    rw [List.mapM_cons, StateT.run_bind] at hrun
    rcases bind_eq_error hrun with hrun | ⟨⟨body, s⟩, -, hrun⟩
    · exact ⟨name, by simp, t, hrun⟩
    · rw [StateT.run_bind] at hrun
      rcases bind_eq_error hrun with hrun | ⟨rest, -, hrun⟩
      · obtain ⟨n, hn, s, hs⟩ := ih hrun
        exact ⟨n, by simp [hn], s, hs⟩
      · cases hrun

theorem link_run_ok {c : Compiler} {h : Host} {stack : List Path} {a : Template} {t t' : Trail}
    {nodes : List Node} (hrun : (link c h stack a.text a.path).run t = .ok (nodes, t')) :
    ∃ p bodies, plan c a.text = .ok p ∧ nodes = p.assemble bodies ∧
      (p.names.mapM (visit c h stack a.path)).run t = .ok (bodies, t') := by
  rw [link_run] at hrun
  cases hp : plan c a.text with
  | error fault => rw [hp] at hrun; cases hrun
  | ok p =>
    rw [hp] at hrun
    cases hm : (p.names.mapM (visit c h stack a.path)).run t with
    | error failure => simp only [hm] at hrun; cases hrun
    | ok result =>
      simp only [hm] at hrun
      cases hrun
      exact ⟨p, result.1, rfl, rfl, hm⟩

theorem visit_run_ok {c : Compiler} {h : Host} {stack : List Path} {path : Option Path} {name : String}
    {t t' : Trail} {nodes : List Node} (hrun : (visit c h stack path name).run t = .ok (nodes, t')) :
    ∃ l text, locate c.options h name path = .ok l ∧ ¬stack.any (·.same l.path) = true ∧
      h.textAt l = .ok text ∧
      (link c h (stack ++ [l.path]) text (some l.path)).run (t.record name path l.path) = .ok (nodes, t') := by
  rw [visit_run] at hrun
  cases hl : locate c.options h name path with
  | error searched => rw [hl] at hrun; cases hrun
  | ok l =>
    simp only [hl, linkFile_run] at hrun
    split at hrun
    · cases hrun
    · next hany =>
      cases hs : h.textAt l with
      | error fault => rw [hs] at hrun; cases hrun
      | ok text => exact ⟨l, text, rfl, hany, hs, by simpa only [hs] using hrun⟩

-- What keeps a template from being joined: its own text, a name that leads nowhere, a file that is on
-- the stack already, one that cannot be read, or one that is entered and cannot be joined itself.
inductive FailsBy (c : Compiler) (h : Host) (stack : List Path) (a : Template) : Failure → Prop where
  | text {fault : Fault} (hplan : plan c a.text = .error fault) : FailsBy c h stack a ⟨a.path, fault⟩
  | lost {p : Plan} {name : String} {searched : List Path} (hplan : plan c a.text = .ok p)
      (hname : name ∈ p.names) (hl : locate c.options h name a.path = .error searched) :
      FailsBy c h stack a ⟨a.path, .templateNotFound name searched⟩
  | circle {name : String} {l : Location} (hfollows : Follows c h a name l)
      (hany : stack.any (·.same l.path) = true) :
      FailsBy c h stack a ⟨some l.path, .circular l.path (stack ++ [l.path])⟩
  | unreadable {name : String} {l : Location} {fault : FileFault} (hfollows : Follows c h a name l)
      (hany : ¬stack.any (·.same l.path) = true) (htext : h.textAt l = .error fault) :
      FailsBy c h stack a ⟨some l.path, .unreadable l.path fault.message⟩
  | entered {name : String} {l : Location} {text : String} {t : Trail} {failure : Failure}
      (hfollows : Follows c h a name l) (hany : ¬stack.any (·.same l.path) = true)
      (htext : h.textAt l = .ok text)
      (hrun : (link c h (stack ++ [l.path]) text (some l.path)).run t = .error failure) :
      FailsBy c h stack a failure

theorem failsBy_of_visit {c : Compiler} {h : Host} {stack : List Path} {a : Template} {p : Plan}
    {name : String} {t : Trail} {failure : Failure} (hplan : plan c a.text = .ok p)
    (hname : name ∈ p.names) (hrun : (visit c h stack a.path name).run t = .error failure) :
    FailsBy c h stack a failure := by
  rw [visit_run] at hrun
  cases hl : locate c.options h name a.path with
  | error searched =>
    rw [hl] at hrun
    cases hrun
    exact .lost hplan hname hl
  | ok l =>
    have hfollows : Follows c h a name l := ⟨⟨p, hplan, hname⟩, hl⟩
    simp only [hl, linkFile_run] at hrun
    split at hrun
    · next hany =>
      cases hrun
      exact .circle hfollows hany
    · next hany =>
      cases htext : h.textAt l with
      | error fault =>
        rw [htext] at hrun
        cases hrun
        exact .unreadable hfollows hany htext
      | ok text => exact .entered hfollows hany htext (by simpa only [htext] using hrun)

theorem failsBy_of_link {c : Compiler} {h : Host} {stack : List Path} {a : Template} {t : Trail}
    {failure : Failure} (hrun : (link c h stack a.text a.path).run t = .error failure) :
    FailsBy c h stack a failure := by
  rw [link_run] at hrun
  cases hplan : plan c a.text with
  | error fault =>
    rw [hplan] at hrun
    cases hrun
    exact .text hplan
  | ok p =>
    rw [hplan] at hrun
    cases hm : (p.names.mapM (visit c h stack a.path)).run t with
    | ok result =>
      simp only [hm] at hrun
      cases hrun
    | error failure =>
      simp only [hm] at hrun
      cases hrun
      obtain ⟨name, hname, s, hvisit⟩ := mapM_run_error hm
      exact failsBy_of_visit hplan hname hvisit

theorem link_within {c : Compiler} {h : Host} (stack : List Path) (a : Template) {t t' : Trail}
    {nodes : List Node} (hrun : (link c h stack a.text a.path).run t = .ok (nodes, t')) :
    t.Within t' := by
  induction stack, a using unvisited_induction (h := h) generalizing t t' nodes with
  | step stack a ih =>
    obtain ⟨p, bodies, -, -, hm⟩ := link_run_ok hrun
    refine (mapM_run_ok Trail.Within.refl (fun _ _ _ => Trail.Within.trans) ?_ hm).1
    intro name _ s body s' hvisit
    obtain ⟨l, text, -, hany, hs, hlink⟩ := visit_run_ok hvisit
    exact (s.within_record name a.path l.path).trans (ih l text hany hs hlink)

-- The walk of a template that is joined, name by name.
theorem link_visits {c : Compiler} {h : Host} {stack : List Path} {a : Template} {t t' : Trail}
    {nodes : List Node} (hrun : (link c h stack a.text a.path).run t = .ok (nodes, t')) :
    ∃ p, plan c a.text = .ok p ∧ ∀ name ∈ p.names,
      ∃ (l : Location) (text : String) (s u : Trail) (body : List Node),
      locate c.options h name a.path = .ok l ∧ ¬stack.any (·.same l.path) = true ∧
      h.textAt l = .ok text ∧
      (link c h (stack ++ [l.path]) text (some l.path)).run (s.record name a.path l.path) = .ok (body, u) ∧
      (s.record name a.path l.path).Within u ∧ u.Within t' := by
  obtain ⟨p, bodies, hp, -, hm⟩ := link_run_ok hrun
  have hkeep : ∀ name ∈ p.names, ∀ s body u,
      (visit c h stack a.path name).run s = .ok (body, u) → s.Within u := by
    intro name _ s body u hvisit
    obtain ⟨l, text, -, -, -, hlink⟩ := visit_run_ok hvisit
    exact (s.within_record name a.path l.path).trans (link_within _ ⟨text, some l.path⟩ hlink)
  have hwalk := mapM_run_ok Trail.Within.refl (fun _ _ _ => Trail.Within.trans) hkeep hm
  refine ⟨p, hp, fun name hname => ?_⟩
  obtain ⟨s, body, u, -, hvisit, hu⟩ := hwalk.2.1 name hname
  obtain ⟨l, text, hl, hany, hs, hlink⟩ := visit_run_ok hvisit
  exact ⟨l, text, s, u, body, hl, hany, hs, hlink, link_within _ ⟨text, some l.path⟩ hlink, hu⟩

-- Every reference of a template is noted in a trail, and leads to a file that can be read.
def Trail.Covers (c : Compiler) (h : Host) (t : Trail) (a : Template) : Prop :=
  ∃ p, plan c a.text = .ok p ∧ ∀ name ∈ p.names, ∃ l text,
    locate c.options h name a.path = .ok l ∧ h.textAt l = .ok text ∧
    (∃ r ∈ t.resolutions, r.name = name ∧ sameOrigin r.origin a.path = true) ∧
    ∃ d ∈ t.dependencies, d.same l.path = true

theorem Trail.Covers.mono {c : Compiler} {h : Host} {t t' : Trail} {a : Template}
    (hcovers : t.Covers c h a) (hw : t.Within t') : t'.Covers c h a := by
  obtain ⟨p, hp, hnames⟩ := hcovers
  refine ⟨p, hp, fun name hname => ?_⟩
  obtain ⟨l, text, hl, hs, ⟨r, hr, hrn⟩, ⟨d, hd, hdl⟩⟩ := hnames name hname
  exact ⟨l, text, hl, hs, ⟨r, hw.2.subset hr, hrn⟩, ⟨d, hw.1.subset hd, hdl⟩⟩

-- On success nothing that was reached is left out of the trail.
theorem link_covers {c : Compiler} {h : Host} (stack : List Path) (a : Template) {t t' : Trail}
    {nodes : List Node} (hrun : (link c h stack a.text a.path).run t = .ok (nodes, t'))
    {b : Template} (hb : Reaches c h a b) : t'.Covers c h b := by
  induction stack, a using unvisited_induction (h := h) generalizing t t' nodes with
  | step stack a ih =>
    obtain ⟨p, hp, hnames⟩ := link_visits hrun
    rcases Relation.ReflTransGen.cases_head hb with
      rfl | ⟨b', ⟨name, l, ⟨⟨p', hp', hname⟩, hl⟩, hs, hpath⟩, hb'⟩
    · refine ⟨p, hp, fun name hname => ?_⟩
      obtain ⟨l, text, s, u, -, hl, -, hs, -, hsu, hu⟩ := hnames name hname
      obtain ⟨r, hr, hrn⟩ := s.record_resolutions name a.path l.path
      obtain ⟨d, hd, hdl⟩ := s.record_dependencies name a.path l.path
      have hw := hsu.trans hu
      exact ⟨l, text, hl, hs, ⟨r, hw.2.subset hr, hrn⟩, ⟨d, hw.1.subset hd, hdl⟩⟩
    · obtain rfl : p = p' := Except.ok.inj (hp.symm.trans hp')
      obtain ⟨l', text, s, u, body, hl', hany, hs', hlink, -, hu⟩ := hnames name hname
      obtain rfl : l = l' := Except.ok.inj (hl.symm.trans hl')
      obtain rfl : b'.text = text := Except.ok.inj (hs.symm.trans hs')
      have hb'' : Reaches c h ⟨b'.text, some l.path⟩ b := by rw [← hpath]; exact hb'
      exact (ih l b'.text hany hs' hlink hb'').mono hu

-- Everything in a trail is a reference of a template that is reached from `a`.
structure Trail.Sound (c : Compiler) (h : Host) (a : Template) (t : Trail) : Prop where
  resolutions : ∀ r ∈ t.resolutions, ∃ b l,
    Reaches c h a b ∧ Follows c h b r.name l ∧ r.origin = b.path ∧ r.resolved = l.path
  dependencies : ∀ d ∈ t.dependencies, ∃ b name l,
    Reaches c h a b ∧ Follows c h b name l ∧ d = l.path

theorem Trail.empty_sound (c : Compiler) (h : Host) (a : Template) : Trail.empty.Sound c h a :=
  ⟨fun _ hr => absurd hr (by simp [Trail.empty]), fun _ hd => absurd hd (by simp [Trail.empty])⟩

theorem Trail.Sound.record {c : Compiler} {h : Host} {a b : Template} {t : Trail} {name : String}
    {l : Location} (hsound : t.Sound c h a) (hb : Reaches c h a b) (hl : Follows c h b name l) :
    (t.record name b.path l.path).Sound c h a := by
  constructor
  · intro r hr
    rcases Trail.mem_record hr with hr | rfl
    · exact hsound.resolutions r hr
    · exact ⟨b, l, hb, hl, rfl, rfl⟩
  · intro d hd
    rcases Trail.mem_record_dependencies hd with hd | rfl
    · exact hsound.dependencies d hd
    · exact ⟨b, name, l, hb, hl, rfl⟩

theorem link_sound {c : Compiler} {h : Host} {root : Template} (stack : List Path) (a : Template)
    {t t' : Trail} {nodes : List Node}
    (hrun : (link c h stack a.text a.path).run t = .ok (nodes, t'))
    (ha : Reaches c h root a) (hsound : t.Sound c h root) : t'.Sound c h root := by
  induction stack, a using unvisited_induction (h := h) generalizing t t' nodes with
  | step stack a ih =>
    obtain ⟨p, bodies, hp, -, hm⟩ := link_run_ok hrun
    refine (mapM_run_ok (R := fun s s' => s.Sound c h root → s'.Sound c h root)
      (fun _ hs => hs) (fun _ _ _ hst htu hs => htu (hst hs)) ?_ hm).1 hsound
    intro name hname s body s' hvisit hs
    obtain ⟨l, text, hl, hany, htext, hlink⟩ := visit_run_ok hvisit
    have hfollows : Follows c h a name l := ⟨⟨p, hp, hname⟩, hl⟩
    exact ih l text hany htext hlink (ha.tail ⟨name, l, hfollows, htext, rfl⟩) (hs.record ha hfollows)

-- A trail that holds the references of a template holds each just as it was found, if no other template
-- has a path that compares as equal to its path.
theorem Trail.Sound.notes {c : Compiler} {h : Host} {a b : Template} {t : Trail} {name : String}
    {l : Location} (hsound : t.Sound c h a) (hcovers : t.Covers c h b) (hcwd : h.cwd.Proper)
    (hpath : ∀ b', Reaches c h a b' → sameOrigin b'.path b.path = true → b'.path = b.path)
    (hl : Follows c h b name l) : ⟨name, b.path, l.path⟩ ∈ t.resolutions ∧ l.path ∈ t.dependencies := by
  obtain ⟨⟨p, hp, hname⟩, hl⟩ := hl
  obtain ⟨p', hp', hnames⟩ := hcovers
  obtain rfl : p = p' := Except.ok.inj (hp.symm.trans hp')
  obtain ⟨l', -, hl', -, ⟨r, hr, hrname, hrorigin⟩, ⟨d, hd, hdl⟩⟩ := hnames name hname
  obtain rfl : l = l' := Except.ok.inj (hl.symm.trans hl')
  constructor
  · obtain ⟨b', l', hb', ⟨-, hl'⟩, horigin, hresolved⟩ := hsound.resolutions r hr
    rw [horigin] at hrorigin
    have hsame := hpath b' hb' hrorigin
    rw [hrname, hsame, hl] at hl'
    have hr' : r = ⟨name, b.path, l.path⟩ := by
      rw [← hsame, ← horigin, Except.ok.inj hl', ← hresolved, ← hrname]
    exact hr' ▸ hr
  · obtain ⟨b', name', l', -, ⟨-, hl'⟩, rfl⟩ := hsound.dependencies d hd
    have hll' := (Location.path_same_iff (locate_proper hcwd hl') (locate_proper hcwd hl)).mp hdl
    exact hll' ▸ hd

-- A trail holds every reference that was followed, just as it was found.
theorem link_notes {c : Compiler} {h : Host} {stack : List Path} {a b : Template} {t : Trail}
    {nodes : List Node} {name : String} {l : Location} (hcwd : h.cwd.Proper) (ha : a.Canonical)
    (hrun : (link c h stack a.text a.path).run .empty = .ok (nodes, t))
    (hb : Reaches c h a b) (hl : Follows c h b name l) :
    ⟨name, b.path, l.path⟩ ∈ t.resolutions ∧ l.path ∈ t.dependencies := by
  have hsound := link_sound stack a hrun .refl (Trail.empty_sound c h a)
  refine hsound.notes (link_covers stack a hrun hb) hcwd (fun b' hb' hsame => ?_) hl
  exact (ha.of_reaches hcwd hb').path_eq (ha.of_reaches hcwd hb) hsame

-- A template is joined only if every reference leads to a file that can be read.
theorem link_follows {c : Compiler} {h : Host} {stack : List Path} {a b : Template} {t t' : Trail}
    {nodes : List Node} (hrun : (link c h stack a.text a.path).run t = .ok (nodes, t'))
    (hb : Reaches c h a b) :
    ∃ p, plan c b.text = .ok p ∧ ∀ name ∈ p.names, ∃ l text,
      Follows c h b name l ∧ h.textAt l = .ok text := by
  obtain ⟨p, hp, hnames⟩ := link_covers stack a hrun hb
  refine ⟨p, hp, fun name hname => ?_⟩
  obtain ⟨l, text, hl, hs, -⟩ := hnames name hname
  exact ⟨l, text, ⟨⟨p, hp, hname⟩, hl⟩, hs⟩

theorem compile_run_ok {c : Compiler} {h : Host} {source : String} {path : Option Path} {r : Compiled}
    (hr : compile c h source path = .ok r) : ∃ nodes t,
      (link c h (path.map h.absolute).toList source (path.map h.absolute)).run .empty = .ok (nodes, t) ∧
        r = ⟨.ofNodes nodes, t.dependencies, t.resolutions⟩ := by
  unfold compile at hr
  dsimp only at hr
  split at hr
  · cases hr
  · next nodes t hrun =>
    cases hr
    exact ⟨nodes, t, hrun, rfl⟩

end TemplateEngine.Compile
