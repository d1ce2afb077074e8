import TemplateEngine.Proofs.Compile.Alone

-- What a compilation notes is what it does: its dependencies are the files that it opens, and its
-- resolutions are the references that it follows.
namespace TemplateEngine.Compile

-- No file is noted twice, and no name twice for one template.
structure Trail.Tidy (t : Trail) : Prop where
  dependencies : Distinct t.dependencies
  resolutions : t.resolutions.Pairwise fun q q' =>
    ¬(q.name = q'.name ∧ sameOrigin q.origin q'.origin = true)

theorem Trail.empty_tidy : Trail.empty.Tidy := ⟨List.Pairwise.nil, List.Pairwise.nil⟩

theorem Trail.Tidy.record {t : Trail} (ht : t.Tidy) (name : String) (origin : Option Path) (path : Path) :
    (t.record name origin path).Tidy := by
  constructor
  · unfold Trail.record
    dsimp only
    split
    · exact ht.dependencies
    · next hpath => exact ht.dependencies.push hpath
  · unfold Trail.record
    dsimp only
    split
    · exact ht.resolutions
    · next hname =>
      refine List.pairwise_append.mpr ⟨ht.resolutions, List.pairwise_singleton _ _, fun q hq q' hq' => ?_⟩
      rw [List.mem_singleton.mp hq']
      rintro ⟨hsame, horigin⟩
      have hnoted : (q.name == name && sameOrigin q.origin origin) = true := by
        rw [hsame, horigin, beq_self_eq_true, Bool.and_self]
      exact hname (List.any_eq_true.mpr ⟨q, hq, hnoted⟩)

theorem Trail.Tidy.recordAll {t : Trail} (ht : t.Tidy) (found : List Resolution) :
    (t.recordAll found).Tidy := by
  induction found generalizing t with
  | nil => exact ht
  | cons r found ih => exact ih (ht.record r.name r.origin r.resolved)

-- Places that compare as equal are written alike once they are written in full, so that noting each
-- file once is taking the repeated ones out.
theorem Trail.recordAll_empty_dependencies {found : List Resolution}
    (hfound : ∀ r ∈ found, ∃ l : Location, l.Proper ∧ r.resolved = l.path) :
    (Trail.empty.recordAll found).dependencies = (found.map (·.resolved)).eraseDups := by
  induction found using List.reverseRecOn with
  | nil => rfl
  | append_singleton found r ih =>
    have hbefore := ih fun q hq => hfound q (by simp [hq])
    obtain ⟨l, hl, hlr⟩ := hfound r (by simp)
    have hany : ((found.map (·.resolved)).eraseDups.any (·.same r.resolved)) =
        (found.map (·.resolved)).contains r.resolved := by
      rw [Bool.eq_iff_iff, List.any_eq_true, List.contains_iff_mem]
      constructor
      · rintro ⟨p, hp, hsame⟩
        obtain ⟨q, hq, rfl⟩ := List.mem_map.mp (List.mem_eraseDups.mp hp)
        obtain ⟨m, hm, hmq⟩ := hfound q (by simp [hq])
        rw [hlr, hmq] at hsame
        rw [hlr, ← (Location.path_same_iff hm hl).mp hsame, ← hmq]
        exact List.mem_map_of_mem hq
      · intro hmem
        exact ⟨r.resolved, List.mem_eraseDups.mpr hmem, Path.same_self _⟩
    simp only [recordAll_append, recordAll_cons, recordAll_nil, Trail.record, hbefore, hany,
      List.map_append, List.map_cons, List.map_nil, List.eraseDups_append, List.removeAll]
    by_cases hmem : (found.map (·.resolved)).contains r.resolved = true
    · rw [if_pos hmem, List.filter_singleton, List.elem_eq_contains, hmem]
      simp
    · rw [if_neg hmem, List.filter_singleton, List.elem_eq_contains,
        Bool.eq_false_iff.mpr hmem]
      rfl

-- The files that were opened, in order, the first one included.
def Progress.opened (s : Progress) : List Path := s.held.filterMap List.getLast?

def Progress.entered (s : Progress) (path : Path) : Progress :=
  ⟨s.stack ++ [path], s.trail, s.held ++ [s.stack ++ [path]]⟩

@[simp] theorem Progress.opened_entered (s : Progress) (path : Path) :
    (s.entered path).opened = s.opened ++ [path] := by
  simp [opened, entered]

@[simp] theorem Progress.opened_leave (s : Progress) : s.leave.opened = s.opened := rfl

-- What a part of a run found: it opened just the files that it noted, in that order, and read each.
structure Gains (h : Host) (s s' : Progress) (found : List Resolution) : Prop where
  trail : s'.trail = s.trail.recordAll found
  opened : s'.opened = s.opened ++ found.map (·.resolved)
  read : ∀ r ∈ found, ∃ l text, l.Proper ∧ r.resolved = l.path ∧ h.textAt l = .ok text

theorem Gains.refl (h : Host) (s : Progress) : Gains h s s [] := ⟨rfl, by simp, by simp⟩

theorem Gains.trans {h : Host} {s t u : Progress} {found more : List Resolution}
    (hst : Gains h s t found) (htu : Gains h t u more) : Gains h s u (found ++ more) where
  trail := by rw [htu.trail, hst.trail, Trail.recordAll_append]
  opened := by rw [htu.opened, hst.opened, List.map_append, List.append_assoc]
  read := fun r hr => (List.mem_append.mp hr).elim (hst.read r) (htu.read r)

section Logging

variable {α β : Type} {c : Compiler} {h : Host}

-- A run that, where it succeeds, notes what it opens.
def Logs (h : Host) (x : Tracking α) : Prop :=
  ∀ s a s', x.run s = some (.ok a, s') → ∃ found, Gains h s s' found

-- A way to join files that opens the file, and from there on notes what it opens.
def Opens (h : Host) (file : Location → Tracking α) : Prop :=
  ∀ l s a s', (file l).run s = some (.ok a, s') →
    (∃ text, h.textAt l = .ok text) ∧ ∃ found, Gains h (s.entered l.path) s' found

theorem logs_pure (a : α) : Logs h (pure a) := by
  rintro s _ _ ⟨⟩
  exact ⟨[], Gains.refl h s⟩

theorem logs_throw (failure : Failure) : Logs h (throw failure : Tracking α) := by
  rintro s _ _ ⟨⟩

theorem Logs.bind {x : Tracking α} {f : α → Tracking β} (hx : Logs h x) (hf : ∀ a, Logs h (f a)) :
    Logs h (x >>= f) := by
  intro s b s' hrun
  rcases tracking_bind_eq_some hrun with ⟨failure, -, heq⟩ | ⟨a, t, hxs, hfs⟩
  · cases heq
  · obtain ⟨found, hfound⟩ := hx s a t hxs
    obtain ⟨more, hmore⟩ := hf a t b s' hfs
    exact ⟨found ++ more, hfound.trans hmore⟩

theorem logs_mapM {f : String → Tracking β} (hf : ∀ name, Logs h (f name)) (names : List String) :
    Logs h (names.mapM f) := by
  induction names with
  | nil => exact logs_pure []
  | cons name names ih =>
    rw [List.mapM_cons]
    exact (hf name).bind fun b => ih.bind fun bs => logs_pure (b :: bs)

-- A file is noted where its name is resolved, right before it is opened.
theorem Opens.logs_trackName {file : Location → Tracking (List Node)} (hcwd : h.cwd.Proper)
    (hfile : Opens h file) (path : Option Path) (name : String) : Logs h (trackName c h file path name) := by
  intro s nodes s' hrun
  rw [trackName_run] at hrun
  cases hl : locate c.options h name path with
  | error searched => rw [hl] at hrun; cases hrun
  | ok l =>
    rw [hl] at hrun
    obtain ⟨⟨text, htext⟩, found, hfound⟩ := hfile l _ nodes s' hrun
    refine ⟨⟨name, path, l.path⟩ :: found, hfound.trail, ?_, ?_⟩
    · rw [hfound.opened, Progress.opened_entered, List.append_assoc]
      rfl
    · intro r hr
      rcases List.mem_cons.mp hr with rfl | hr
      · exact ⟨l, text, locate_proper hcwd hl, rfl, htext⟩
      · exact hfound.read r hr

theorem Opens.logs_trackSource {file : Location → Tracking (List Node)} (hcwd : h.cwd.Proper)
    (hfile : Opens h file) (source : String) (path : Option Path) :
    Logs h (trackSource c h file source path) := by
  unfold trackSource
  split
  · exact logs_throw _
  · rw [map_eq_pure_bind]
    exact (logs_mapM (hfile.logs_trackName hcwd path) _).bind fun bodies => logs_pure _

theorem Logs.entered {x : Tracking α} (hx : Logs h x) {path : Path} {s s' : Progress} {a : α}
    (hrun : (within path x).run s = some (.ok a, s')) : ∃ found, Gains h (s.entered path) s' found := by
  rw [within_run] at hrun
  split at hrun
  · cases hrun
  · obtain ⟨⟨result, after⟩, hafter, he⟩ := Option.map_eq_some_iff.mp hrun
    cases he
    obtain ⟨found, hfound⟩ := hx _ a after hafter
    exact ⟨found, hfound.trail, hfound.opened, hfound.read⟩

theorem opens_trackFile (hcwd : h.cwd.Proper) (depth : Nat) : Opens h (trackFile c h depth) := by
  induction depth with
  | zero =>
    intro l s nodes s' hrun
    cases hrun
  | succ depth ih =>
    intro l s nodes s' hrun
    rw [trackFile] at hrun
    cases htext : h.textAt l with
    | error fault =>
      rw [htext, within_run] at hrun
      split at hrun <;> cases hrun
    | ok text =>
      rw [htext] at hrun
      exact ⟨⟨text, rfl⟩, (ih.logs_trackSource hcwd text (some l.path)).entered hrun⟩

theorem trackOrigin_run_ok (hcwd : h.cwd.Proper) {depth : Nat} {source : String} {origin : Option Path}
    {s : Progress} {nodes : List Node}
    (hrun : (trackOrigin c h depth source origin).run ⟨[], .empty, [[]]⟩ = some (.ok nodes, s)) :
    ∃ found, s.trail = Trail.empty.recordAll found ∧
      s.opened = origin.toList ++ found.map (·.resolved) ∧
      ∀ r ∈ found, ∃ l text, l.Proper ∧ r.resolved = l.path ∧ h.textAt l = .ok text := by
  have hlogs := (opens_trackFile (c := c) hcwd depth).logs_trackSource (c := c) hcwd source origin
  unfold trackOrigin at hrun
  cases origin with
  | none =>
    obtain ⟨found, hfound⟩ := hlogs _ _ _ hrun
    exact ⟨found, hfound.trail, hfound.opened, hfound.read⟩
  | some p =>
    obtain ⟨found, hfound⟩ := hlogs.entered hrun
    exact ⟨found, hfound.trail, hfound.opened, hfound.read⟩

end Logging

section Following

variable {c : Compiler} {h : Host} {a b b' : Template} {t : Trail} {nodes : List Node}

-- On success a template that is reached is known by its path, the one without a path included.
theorem reached_eq_of_sameOrigin (hcwd : h.cwd.Proper)
    (hrun : (link c h a.path.toList a.text a.path).run .empty = .ok (nodes, t))
    (hb : Reaches c h a b) (hb' : Reaches c h a b') (hsame : sameOrigin b.path b'.path = true) :
    b = b' := by
  have hnone : ∀ {d : Template}, Reaches c h a d → d.path = none → d = a := by
    intro d hd hpath
    rcases Relation.reflTransGen_iff_eq_or_transGen.mp hd with rfl | hd
    · rfl
    · obtain ⟨l, -, hl, -⟩ := transGen_target hcwd hd
      rw [hpath] at hl
      cases hl
  cases hp : b.path with
  | none =>
    cases hp' : b'.path with
    | none => rw [hnone hb hp, hnone hb' hp']
    | some p' => rw [hp, hp'] at hsame; cases hsame
  | some p =>
    cases hp' : b'.path with
    | none => rw [hp, hp'] at hsame; cases hsame
    | some p' =>
      rw [hp, hp'] at hsame
      exact reached_eq hcwd hrun (mem_toList_any _) hb hb' hp hp' hsame

theorem refers_of_follows (hrun : (link c h a.path.toList a.text a.path).run .empty = .ok (nodes, t))
    (hb : Reaches c h a b) {name : String} {l : Location} (hl : Follows c h b name l) :
    ∃ text, Refers c h b ⟨text, some l.path⟩ := by
  obtain ⟨p, hp, hnames⟩ := link_follows hrun hb
  obtain ⟨⟨p', hp', hname⟩, hlocate⟩ := hl
  obtain rfl : p = p' := Except.ok.inj (hp.symm.trans hp')
  obtain ⟨l', text, ⟨-, hl'⟩, htext⟩ := hnames name hname
  obtain rfl : l = l' := Except.ok.inj (hlocate.symm.trans hl')
  exact ⟨text, name, l, ⟨⟨p, hp, hname⟩, hlocate⟩, htext, rfl⟩

-- Every reference that was followed is noted, however the path of the first template is written.
theorem notes_of_follows (hcwd : h.cwd.Proper)
    (hrun : (link c h a.path.toList a.text a.path).run .empty = .ok (nodes, t))
    (hb : Reaches c h a b) {name : String} {l : Location} (hl : Follows c h b name l) :
    ⟨name, b.path, l.path⟩ ∈ t.resolutions ∧ l.path ∈ t.dependencies := by
  have hsound := link_sound _ a hrun .refl (Trail.empty_sound c h a)
  refine hsound.notes (link_covers _ a hrun hb) hcwd (fun b' hb' hsame => ?_) hl
  rw [reached_eq_of_sameOrigin hcwd hrun hb' hb hsame]

end Following

-- The notes of a compilation agree with each other and with the files.
structure Compiled.Exact (r : Compiled) (c : Compiler) (h : Host) (origin : Option Path) : Prop where
  distinct : Distinct r.dependencies
  others : ∀ p ∈ origin, ∀ d ∈ r.dependencies, p.same d = false
  resolved : ∀ d, d ∈ r.dependencies ↔ ∃ q ∈ r.resolutions, q.resolved = d
  once : r.resolutions.Pairwise fun q q' => ¬(q.name = q'.name ∧ sameOrigin q.origin q'.origin = true)
  origins : ∀ q ∈ r.resolutions, q.origin = origin ∨ ∃ d ∈ r.dependencies, q.origin = some d
  holds : ∀ q ∈ r.resolutions, q.holds c.options h = true

theorem Trail.Tidy.exact {c : Compiler} {h : Host} {source : String} {origin : Option Path} {t : Trail}
    {nodes : List Node} (ht : t.Tidy) (hcwd : h.cwd.Proper)
    (hrun : (link c h origin.toList source origin).run .empty = .ok (nodes, t))
    (hsound : t.Sound c h ⟨source, origin⟩) (program : Program) :
    Compiled.Exact ⟨program, t.dependencies, t.resolutions⟩ c h origin where
  distinct := ht.dependencies
  once := ht.resolutions
  holds := hsound.holds
  others := by
    intro p hp d hd
    obtain ⟨b, name, l, hb, hl, rfl⟩ := hsound.dependencies d hd
    obtain ⟨text, hrefers⟩ := refers_of_follows (a := ⟨source, origin⟩) hrun hb hl
    exact Bool.eq_false_iff.mpr (not_same_of_transGen (a := ⟨source, origin⟩) hrun (mem_toList_any _)
      (Relation.TransGen.tail' hb hrefers) hp rfl)
  resolved := by
    intro d
    constructor
    · intro hd
      obtain ⟨b, name, l, hb, hl, rfl⟩ := hsound.dependencies d hd
      exact ⟨_, (notes_of_follows (a := ⟨source, origin⟩) hcwd hrun hb hl).1, rfl⟩
    · rintro ⟨q, hq, rfl⟩
      obtain ⟨b, l, hb, hl, -, hresolved⟩ := hsound.resolutions q hq
      rw [hresolved]
      exact (notes_of_follows (a := ⟨source, origin⟩) hcwd hrun hb hl).2
  origins := by
    intro q hq
    obtain ⟨b, l, hb, -, horigin, -⟩ := hsound.resolutions q hq
    rw [horigin]
    rcases Relation.ReflTransGen.cases_tail hb with rfl | ⟨b', hb', name, m, hm, -, hpath⟩
    · exact .inl rfl
    · exact .inr ⟨m.path, (notes_of_follows (a := ⟨source, origin⟩) hcwd hrun hb' hm).2, hpath⟩

-- A compilation depends on exactly the files that it opens besides its source, in the order in which it
-- first comes to them, and what else it notes agrees with that.
theorem compile_exact (c : Compiler) (h : Host) (source : String) (path : Option Path) (r : Compiled)
    (hcwd : h.cwd.Proper) (hr : compile c h source path = .ok r) :
    (∀ depth, h.tree.files.length < depth → ∃ s files,
      trackCompile c h depth source path = some (.ok r, s) ∧
        s.opened = (path.map h.absolute).toList ++ files ∧
        (∀ p ∈ files, ∃ l text, p = l.path ∧ h.textAt l = .ok text) ∧
        r.dependencies = files.eraseDups) ∧
      r.Exact c h (path.map h.absolute) := by
  have htracked : ∀ depth, h.tree.files.length < depth → ∃ s nodes found,
      (trackOrigin c h depth source (path.map h.absolute)).run ⟨[], .empty, [[]]⟩ = some (.ok nodes, s) ∧
      r = ⟨.ofNodes nodes, s.trail.dependencies, s.trail.resolutions⟩ ∧
      s.trail = Trail.empty.recordAll found ∧
      s.opened = (path.map h.absolute).toList ++ found.map (·.resolved) ∧
      ∀ q ∈ found, ∃ l text, l.Proper ∧ q.resolved = l.path ∧ h.textAt l = .ok text := by
    intro depth hdepth
    obtain ⟨s, hs, -, -⟩ := trackCompile_eq c h depth source path hdepth
    unfold trackCompile at hs
    obtain ⟨⟨result, s'⟩, hrun, he⟩ := Option.map_eq_some_iff.mp hs
    cases result with
    | error failure =>
      rw [hr] at he
      cases he
    | ok nodes =>
      rw [hr] at he
      cases he
      obtain ⟨found, hfound⟩ := trackOrigin_run_ok hcwd hrun
      exact ⟨_, nodes, found, hrun, rfl, hfound⟩
  constructor
  · intro depth hdepth
    obtain ⟨s, nodes, found, hrun, rfl, htrail, hopened, hread⟩ := htracked depth hdepth
    refine ⟨s, found.map (·.resolved), ?_, hopened, ?_, ?_⟩
    · unfold trackCompile
      rw [hrun]
      rfl
    · intro p hp
      obtain ⟨q, hq, rfl⟩ := List.mem_map.mp hp
      obtain ⟨l, text, -, hl, htext⟩ := hread q hq
      exact ⟨l, text, hl, htext⟩
    · rw [htrail]
      refine Trail.recordAll_empty_dependencies fun q hq => ?_
      obtain ⟨l, -, hl, hql, -⟩ := hread q hq
      exact ⟨l, hl, hql⟩
  · obtain ⟨nodes, t, hrun, rfl⟩ := compile_run_ok hr
    obtain ⟨s, nodes', found, -, hr', htrail, -⟩ := htracked _ (Nat.lt_succ_self _)
    have ht : t.Tidy := by
      obtain ⟨hd, hq⟩ : t.dependencies = s.trail.dependencies ∧ t.resolutions = s.trail.resolutions :=
        ⟨congrArg Compiled.dependencies hr', congrArg Compiled.resolutions hr'⟩
      have hs : s.trail.Tidy := htrail ▸ Trail.empty_tidy.recordAll found
      exact ⟨hd ▸ hs.dependencies, hq ▸ hs.resolutions⟩
    have hsound := link_sound _ ⟨source, path.map h.absolute⟩ hrun .refl (Trail.empty_sound c h _)
    exact ht.exact hcwd hrun hsound _

private def twiceText : String :=
  "\x7b% include 'note' %\x7d\x7b% include 'pair' %\x7d\x7b% include 'note' %\x7d"

-- A template that includes a note twice, and in between another template that includes it too.
private def twiceShelf : Host := shelf
  [(shelfPlace "pair.html", .file "\x7b% include 'note' %\x7d".toUTF8 ⟨4, 0⟩)]

theorem compile_exact_twice : ∃ r s,
    compile shelfCompiler twiceShelf twiceText (some ⟨"templates/twice.html"⟩) = .ok r ∧
      trackCompile shelfCompiler twiceShelf 7 twiceText (some ⟨"templates/twice.html"⟩) =
        some (.ok r, s) ∧
      s.opened = [(shelfPlace "twice.html").path, (shelfPlace "note.html").path,
        (shelfPlace "pair.html").path, (shelfPlace "note.html").path, (shelfPlace "note.html").path] ∧
      r.dependencies = [(shelfPlace "note.html").path, (shelfPlace "pair.html").path] ∧
      r.Exact shelfCompiler twiceShelf (some (shelfPlace "twice.html").path) := by
  have hopened : (trackCompile shelfCompiler twiceShelf 7 twiceText
      (some ⟨"templates/twice.html"⟩)).map (fun x => (x.1.isOk, x.2.opened)) =
      some (true, [(shelfPlace "twice.html").path, (shelfPlace "note.html").path,
        (shelfPlace "pair.html").path, (shelfPlace "note.html").path, (shelfPlace "note.html").path]) := by
    decide +kernel
  have hplace : (some (⟨"templates/twice.html"⟩ : Path)).map twiceShelf.absolute =
      some (shelfPlace "twice.html").path := by decide +kernel
  cases hr : compile shelfCompiler twiceShelf twiceText (some ⟨"templates/twice.html"⟩) with
  | error failure =>
    obtain ⟨s, hs, -⟩ := trackCompile_eq shelfCompiler twiceShelf 7 twiceText
      (some ⟨"templates/twice.html"⟩) (by decide)
    rw [hs, hr] at hopened
    cases hopened
  | ok r =>
    obtain ⟨htracked, hexact⟩ := compile_exact shelfCompiler twiceShelf twiceText
      (some ⟨"templates/twice.html"⟩) r (by decide) hr
    obtain ⟨s, files, hs, hfiles, -, hdependencies⟩ := htracked 7 (by decide)
    rw [hs] at hopened
    have hopened := (Prod.mk.inj (Option.some.inj hopened)).2
    rw [hplace] at hfiles hexact
    refine ⟨r, s, rfl, hs, hopened, ?_, hexact⟩
    have hfiles : files = _ := (List.cons.inj (hfiles.symm.trans hopened)).2
    rw [hdependencies, hfiles]
    decide +kernel

end TemplateEngine.Compile
