import TemplateEngine.Proofs.Engine.Avoid

-- What a compilation answers in a session: what a compiler gives now, or, out of the cache, what one
-- gave before for the same texts. The two are the same as long as the names in those texts lead to
-- the same files; a key does not tell.
namespace TemplateEngine.Engine

-- Times that a key tells apart: not before 1970, and no leap seconds.
def IsUsual (t : Instant) : Prop := 0 ≤ t.seconds ∧ t.nanos < 1000000000

instance (t : Instant) : Decidable (IsUsual t) := inferInstanceAs (Decidable (_ ∧ _))

theorem sinceEpoch_inj {t t' : Instant} (ht : IsUsual t) (ht' : IsUsual t')
    (h : t.sinceEpoch = t'.sinceEpoch) : t = t' := by
  obtain ⟨seconds, nanos⟩ := t
  obtain ⟨seconds', nanos'⟩ := t'
  obtain ⟨hs, hn⟩ := ht
  obtain ⟨hs', hn'⟩ := ht'
  simp only [Instant.sinceEpoch] at h hs hn hs' hn'
  rw [if_neg (by omega), if_neg (by omega)] at h
  congr 1 <;> omega

-- A session with a cache that is empty at first and lies outside the templates, in which a file that
-- is changed is given another time, and in which no two materials of keys have one digest.
structure Orderly (e : Engine) (start : State) (ops : List Op) : Prop where
  valid : start.host.Valid
  vacant : ∀ l entry, start.host.tree.entry? l = some entry → e.InCache start.host.cwd l →
    l = e.cache.root start.host.cwd
  apart : ∀ p ∈ e.trace start ops, p.2.Apart e p.1
  usual : ∀ p ∈ e.trace start ops, ∀ l content changed,
    p.1.host.tree.entry? l = some (.file content changed) → ¬e.InCache start.host.cwd l → IsUsual changed
  steady : ∀ p ∈ e.trace start ops, ∀ q ∈ e.trace start ops, ∀ l content content' changed,
    p.1.host.tree.entry? l = some (.file content changed) →
      q.1.host.tree.entry? l = some (.file content' changed) →
        ¬e.InCache start.host.cwd l → content = content'
  distinct : ∀ p ∈ e.trace start ops, ∀ q ∈ e.trace start ops, ∀ name name',
    p.2.template? = some name → q.2.template? = some name' →
      ∀ m ∈ e.materials p.1 name, ∀ m' ∈ e.materials q.1 name', Cache.digest m = Cache.digest m' → m = m'

variable {e : Engine} {start : State} {ops : List Op} {op : Op} {name other : String} {source : Path}
  {r : Compile.Compiled}

theorem mem_trace_concat {p : State × Op} (hp : p ∈ e.trace start ops) :
    p ∈ e.trace start (ops ++ [op]) := by
  rw [trace_concat]
  exact List.mem_append_left _ hp

theorem last_mem_trace : (e.after start ops, op) ∈ e.trace start (ops ++ [op]) := by
  rw [trace_concat]
  exact List.mem_append_right _ (List.mem_singleton_self _)

-- Files that stand at one place in two states of a session, and have times that keys do not tell
-- apart, have the same text.
theorem Orderly.textAt_eq (ho : e.Orderly start ops) {p q : State × Op} (hp : p ∈ e.trace start ops)
    (hq : q ∈ e.trace start ops) {l : Location} (hl : l.Proper) (hout : ¬e.InCache start.host.cwd l)
    (hfile : ∃ content changed, p.1.host.tree.entry? l = some (.file content changed))
    (hfile' : ∃ content changed, q.1.host.tree.entry? l = some (.file content changed)) {t t' : Instant}
    (ht : p.1.host.changed l.path = .ok t) (ht' : q.1.host.changed l.path = .ok t')
    (htime : t.sinceEpoch = t'.sinceEpoch) : q.1.host.textAt l = p.1.host.textAt l := by
  obtain ⟨content, changed, he⟩ := hfile
  obtain ⟨content', changed', he'⟩ := hfile'
  obtain rfl := Host.changed_eq_of_file hl he ht
  obtain rfl := Host.changed_eq_of_file hl he' ht'
  obtain rfl := sinceEpoch_inj (ho.usual p hp l _ _ he hout) (ho.usual q hq l _ _ he' hout) htime
  obtain rfl := ho.steady p hp q hq l _ _ _ he he' hout
  unfold Host.textAt
  rw [he, he']

-- The code and the metadata of an entry come from compilations whose keys have its digits, though
-- maybe not from one.
theorem Sound.of_fresh {home : Location} {past : List (State × Op)} {s : State} {k : Cache.Key}
    {code : String} {m : Cache.Metadata} (hs : e.Sound home past s) (hk : k.Plain)
    (hl : e.cache.lookup s.host k = .fresh code m) :
    (∃ source files r, e.Recorded past source files r ∧
      k.digits = (Cache.Key.ofFiles e.settings.salt files).digits ∧ code = r.code) ∧
    ∃ source files r, e.Recorded past source files r ∧
      k.digits = (Cache.Key.ofFiles e.settings.salt files).digits ∧ m.dependencies = r.dependencies := by
  obtain ⟨⟨text, changed, hmeta, hread⟩, changed', hcode⟩ := Cache.lookup_eq_fresh hk hl
  rw [hs.cwd] at hmeta hcode
  constructor
  · obtain ⟨source, files, r, hrecorded, ⟨hname, hcontent⟩ | ⟨hname, -⟩⟩ := hs.origin _ _ _ hcode
    · exact ⟨source, files, r, hrecorded, Cache.stem_eq hname, toUTF8_inj hcontent⟩
    · exact absurd hname (Cache.suffix_ne _ _)
  · obtain ⟨source, files, r, hrecorded, ⟨hname, -⟩ | ⟨hname, stamp, hcontent⟩⟩ :=
      hs.origin _ _ _ hmeta
    · exact absurd hname.symm (Cache.suffix_ne _ _)
    · rw [toUTF8_inj hcontent] at hread
      exact ⟨source, files, r, hrecorded, Cache.stem_eq hname, (Cache.Metadata.ofText?_text hread).2⟩

-- A compilation whose key has the digits of a key that is computed now had the same files, with the
-- same times.
theorem Orderly.same_of_digits (ho : e.Orderly start (ops ++ [op])) (hop : op.template? = some name)
    {files files' : List Cache.Stamped} {ps : List Path}
    (hrecorded : e.Recorded (e.trace start ops) source files r)
    (hfiles : ps.mapM (Cache.stamped (e.after start ops).host) = .ok files')
    (hmem : Cache.Key.material e.settings.salt files' ∈ e.materials (e.after start ops) name)
    (hdigits : (Cache.Key.ofFiles e.settings.salt files').digits =
      (Cache.Key.ofFiles e.settings.salt files).digits) :
    ∃ t other, e.CompiledIn (e.trace start ops) source t other r ∧ source :: r.dependencies = ps ∧
      ∀ p ∈ source :: r.dependencies, ∃ time time', t.host.changed p = .ok time ∧
        (e.after start ops).host.changed p = .ok time' ∧ time.sinceEpoch = time'.sinceEpoch := by
  obtain ⟨t, other, hcompiled, hthen, hmem'⟩ := hrecorded
  obtain ⟨p, hp, hpop⟩ := hcompiled.past
  have hmaterial := ho.distinct _ (mem_trace_concat hp) _ last_mem_trace other name hpop hop _ hmem' _
    hmem hdigits.symm
  obtain ⟨hpaths, htimes⟩ := Cache.same_of_material_eq hthen hfiles hmaterial
  exact ⟨t, other, hcompiled, hpaths, htimes⟩

-- What is found in the cache is what an earlier compilation of the same source gave, from files that
-- have the same times now as they had then.
theorem Hit.recorded {loaded : Loaded} (ho : e.Orderly start (ops ++ [op])) (hop : op.template? = some name)
    (hs : e.Sound start.host.cwd (e.trace start ops) (e.after start ops))
    (hresolve : e.resolve (e.after start ops).host name = .ok source)
    (hhit : e.Hit source (e.after start ops).host loaded) :
    ∃ t other r, e.CompiledIn (e.trace start ops) source t other r ∧ loaded.code = r.code ∧
      loaded.dependencies = r.dependencies ∧ ∀ p ∈ source :: r.dependencies, ∃ time time',
        t.host.changed p = .ok time ∧ (e.after start ops).host.changed p = .ok time' ∧
          time.sinceEpoch = time'.sinceEpoch := by
  obtain ⟨i, k, m, hi, hk, hl, hdependencies⟩ := hhit.found
  have hplain := keyOf_plain hk
  obtain ⟨files, hfiles, rfl⟩ := Cache.keyOf_eq_ok hk
  have hmem : Cache.Key.material e.settings.salt files ∈ e.materials (e.after start ops) name := by
    unfold materials
    rw [hresolve]
    refine List.mem_append_left _ (List.mem_flatMap.mpr ⟨i, ?_, mem_materialOf hfiles⟩)
    simp [hi]
  obtain ⟨⟨source₁, files₁, r₁, hrecorded₁, hdigits₁, hcode⟩,
    ⟨source₂, files₂, r₂, hrecorded₂, hdigits₂, hnoted⟩⟩ := hs.of_fresh hplain hl
  -- There may be two compilations, but with one key they have the same source and dependencies.
  obtain ⟨t, other, hcompiled, hpaths₁, htimes⟩ := ho.same_of_digits hop hrecorded₁ hfiles hmem hdigits₁
  obtain ⟨-, -, -, hpaths₂, -⟩ := ho.same_of_digits hop hrecorded₂ hfiles hmem hdigits₂
  obtain ⟨rfl, hdependencies₁⟩ := List.cons.inj hpaths₁
  obtain ⟨-, hdependencies₂⟩ := List.cons.inj hpaths₂
  refine ⟨t, other, r₁, hcompiled, hcode, ?_, htimes⟩
  rw [hdependencies, hnoted, hdependencies₂, hdependencies₁]

-- A compilation gives the same again if all names lead where they led and the files that were read
-- have the same texts.
theorem compileFile_again {h h' : Host} {l : Location} (hv : h.Valid) (hv' : h'.Valid) (hl : l.Proper)
    (hr : e.compileFile h l.path = .ok r) (hread : h'.read l.path = h.read l.path)
    (hholds : ∀ q ∈ r.resolutions, q.holds e.settings.compileOptions h' = true)
    (htexts : ∀ m : Location, m.Proper → m.path ∈ r.dependencies → h'.textAt m = h.textAt m) :
    e.compileFile h' l.path = .ok r := by
  obtain ⟨text, htext, hcompile⟩ := compileFile_eq_ok.mp hr
  refine compileFile_eq_ok.mpr ⟨text, hread.trans htext, ?_⟩
  have hagrees : r.AgreesOn e.compiler h h' := ⟨hholds, htexts⟩
  have hproper : ∀ m ∈ some l, m.Proper := fun _ => hl.of_mem_some
  have hsame := fun b hb => hagrees.sameFindings (b := b) hv.cwd hv'.cwd hproper hcompile hb
  exact (Compile.compile_congr hproper hsame).trans hcompile

theorem CompiledIn.again_iff {t : State} (ho : e.Orderly start (ops ++ [op]))
    (hs : e.Sound start.host.cwd (e.trace start ops) (e.after start ops))
    (hresolve : e.resolve (e.after start ops).host name = .ok source)
    (hcompiled : e.CompiledIn (e.trace start ops) source t other r)
    (ht : t.host.Valid ∧ t.host.cwd = start.host.cwd)
    (htimes : ∀ p ∈ source :: r.dependencies, ∃ time time', t.host.changed p = .ok time ∧
      (e.after start ops).host.changed p = .ok time' ∧ time.sinceEpoch = time'.sinceEpoch) :
    e.compileFile (e.after start ops).host source = .ok r ↔
      ∀ q ∈ r.resolutions, q.holds e.settings.compileOptions (e.after start ops).host = true := by
  obtain ⟨⟨p, hp, hpop⟩, hthen, hr⟩ := hcompiled
  have hmem : (t, p) ∈ e.trace start (ops ++ [op]) := mem_trace_concat hp
  obtain ⟨l, hl, rfl⟩ := resolve_eq_ok hresolve
  obtain ⟨l', hl', hpath⟩ := resolve_eq_ok hthen
  have hproper := Compile.locate_proper hs.valid.cwd hl
  have hproper' := Compile.locate_proper ht.1.cwd hl'
  obtain rfl := Location.parts_inj hproper hproper' (congrArg Path.parts hpath)
  constructor
  · intro hagain
    exact compileFile_holds hproper hagain
  · intro hholds
    obtain ⟨hout, hreaches⟩ := (ho.apart _ hmem).1 other hpop l hl'
    obtain ⟨text, htext, hcompile⟩ := compileFile_eq_ok.mp hr
    have hsource : (e.after start ops).host.read l.path = t.host.read l.path := by
      obtain ⟨time, time', htime, htime', heq⟩ := htimes l.path (by simp)
      rw [Host.read_of_changed hproper htime, Host.read_of_changed hproper htime']
      exact ho.textAt_eq hmem last_mem_trace hproper (ht.2 ▸ hout) (Compile.entry?_of_locate hl')
        (Compile.entry?_of_locate hl) htime htime' heq
    refine compileFile_again ht.1 hs.valid hproper hr hsource hholds fun m hm hdependency => ?_
    -- A dependency was noted with a name, and that name still leads to it.
    obtain ⟨b, noted, k, hb, hk, hmk, hq⟩ :=
      Compile.dependencies_noted (some l) ht.1.cwd (fun _ => hproper.of_mem_some) hcompile hdependency
    obtain ⟨k', hk', hsame⟩ := Compile.Resolution.holds_iff.mp (hholds _ hq)
    have hkproper := Compile.locate_proper ht.1.cwd hk.2
    obtain rfl := (Location.path_same_iff (Compile.locate_proper hs.valid.cwd hk') hkproper).mp hsame
    obtain rfl := Location.parts_inj hm hkproper (congrArg Path.parts hmk)
    obtain ⟨time, time', htime, htime', heq⟩ := htimes m.path (by simp [hdependency])
    have hmout := hreaches text (textAt_of_read hproper htext) b hb noted m hk
    exact ho.textAt_eq hmem last_mem_trace hm (ht.2 ▸ hmout) (Compile.entry?_of_locate hk.2)
      (Compile.entry?_of_locate hk') htime htime' heq

-- What a compilation in a session answers was compiled from the same source in the session: now, or
-- earlier if the answer counts as a hit. An earlier compilation is what a compiler gives now just if
-- all names in it still lead where they led then.
theorem compile_answers (e : Engine) (start : State) (ops : List Op) (name : String) (loaded : Loaded)
    (s : State) (ho : e.Orderly start (ops ++ [.compile name]))
    (hok : (e.compile name).run (e.after start ops) = (.ok loaded, s)) :
    e.resolve (e.after start ops).host name = .ok loaded.source ∧
      ∃ t other r, e.CompiledIn (e.trace start (ops ++ [.compile name])) loaded.source t other r ∧
        loaded.code = r.code ∧ loaded.dependencies = r.dependencies ∧
        (t = e.after start ops ∧ s.counters.hits = (e.after start ops).counters.hits ∨
          s.counters.hits = (e.after start ops).counters.hits + 1) ∧
        (e.compileFile (e.after start ops).host loaded.source = .ok r ↔
          ∀ q ∈ r.resolutions, q.holds e.settings.compileOptions (e.after start ops).host = true) := by
  have hop : (Op.compile name).template? = some name := rfl
  have hstart := sound_start ho.valid ho.vacant
  have hops : ∀ p ∈ e.trace start ops, p.2.Apart e p.1 := fun p hp => ho.apart p (mem_trace_concat hp)
  have hs : e.Sound start.host.cwd (e.trace start ops) (e.after start ops) := by
    simpa using hstart.after ops hops
  obtain ⟨source, hresolve, hload⟩ := load_of_compile hok
  rcases load_run_ok hs.valid hload with ⟨hhit, -, hhits⟩ | ⟨t, u, hmiss, ht, hu, hrenewed⟩
  · -- The entry is that of an earlier compilation, whose names may have led elsewhere.
    obtain ⟨t, other, r, hcompiled, hcode, hdependencies, htimes⟩ := hhit.recorded ho hop hs hresolve
    obtain ⟨p, hp, -⟩ := hcompiled.past
    obtain ⟨past, hpast⟩ := hstart.of_mem_trace hops hp
    have hiff := hcompiled.again_iff ho hs hresolve ⟨hpast.valid, hpast.cwd⟩ htimes
    rw [hhit.source]
    exact ⟨hresolve, t, other, r, hcompiled.mono fun _ => mem_trace_concat, hcode, hdependencies,
      .inr hhits, hiff⟩
  · -- Entries may go before the compilation, but none that it depends on.
    have happart := (ho.apart (e.after start ops, .compile name) last_mem_trace).1 name hop
    obtain ⟨r, files, hcompiled, -, -, hloaded⟩ :=
      hrenewed.recorded (e.trace start ops) hs.valid hop happart hresolve hmiss ht hu
    obtain ⟨hsource, hcode, hdependencies⟩ := hloaded loaded rfl
    obtain ⟨l, hl, rfl⟩ := resolve_eq_ok hresolve
    have hnow := hcompiled.compiled
    have hhits := hrenewed.hits.trans (hu.hits.trans ht.hits)
    rw [← trace_concat] at hcompiled
    rw [hsource]
    refine ⟨hresolve, _, name, r, hcompiled, hcode, hdependencies, .inl ⟨rfl, hhits⟩, fun _ => ?_,
      fun _ => hnow⟩
    exact compileFile_holds (Compile.locate_proper hs.valid.cwd hl) hnow

-- A template is apart from the cache if it compiles, and neither it nor a dependency is in there.
theorem templateApart_of_compileFile {h : Host} {l : Location} (hcwd : h.cwd.Proper)
    (hl : Compile.locate e.settings.compileOptions h name none = .ok l) (hout : ¬e.InCache h.cwd l)
    (hr : e.compileFile h l.path = .ok r)
    (hdependencies : ∀ m : Location, m.path ∈ r.dependencies → ¬e.InCache h.cwd m) :
    e.TemplateApart h name := by
  intro m hm
  obtain rfl : l = m := Except.ok.inj (hl.symm.trans hm)
  have hproper := Compile.locate_proper hcwd hl
  refine ⟨hout, fun text htext => ?_⟩
  obtain ⟨text', hread, hcompile⟩ := compileFile_eq_ok.mp hr
  obtain rfl : text = text' := Except.ok.inj (htext.symm.trans (textAt_of_read hproper hread))
  have houtside := Compile.outside_of_compile (some l) hcwd (fun _ => hproper.of_mem_some) hcompile
    hdependencies
  exact houtside

-- Whether an entry is in the cache, or the page or its note.
def isStall : Location × Entry → Bool
  | (l, .file content changed) => ["c"].isPrefixOf l ||
    (content.data.toList == (if l = ["n"] then "1" else "\x7b% include 'n' %\x7d").toUTF8.data.toList &&
      decide (IsUsual changed))
  | (_, .directory _) => true

-- What keeps a state of a session with the page in order.
def StallState (s : State) : Prop :=
  (∀ x ∈ s.host.tree.entries, isStall x = true) ∧
    Compile.locate stallEngine.settings.compileOptions s.host "p" none = .ok ["p"] ∧
    ((stallEngine.compileFile s.host ⟨"/p"⟩).toOption.map fun r => (r.dependencies, r.resolutions)) =
      some ([⟨"/n"⟩], [⟨"n", some ⟨"/p"⟩, ⟨"/n"⟩⟩]) ∧
    stallEngine.materials s "p" = ["v1;auto_escape=true;ext=;dir=\n/p\x001\n/n\x002\n"] ∧ s.host.cwd = []

instance (s : State) : Decidable (StallState s) := inferInstanceAs (Decidable (_ ∧ _ ∧ _ ∧ _ ∧ _))

theorem stallStates :
    (∀ p ∈ stallEngine.trace (stall []) [.compile "p", .compile "p"], StallState p.1) ∧
      Compile.Resolution.holds ⟨"n", some ⟨"/p"⟩, ⟨"/n"⟩⟩ stallEngine.settings.compileOptions
        (stallEngine.after (stall []) [.compile "p"]).host = true ∧
      ((stallEngine.compile "p").run (stallEngine.after (stall []) [.compile "p"])).1.toBool = true ∧
      ((stallEngine.compile "p").run (stallEngine.after (stall []) [.compile "p"])).2.counters.hits = 1 := by
  decide +kernel

theorem StallState.file {s : State} (hs : StallState s) {l : Location} {content : ByteArray}
    {changed : Instant} (he : s.host.tree.entry? l = some (.file content changed))
    (hout : ¬stallEngine.InCache [] l) :
    content.data.toList = (if l = ["n"] then "1" else "\x7b% include 'n' %\x7d").toUTF8.data.toList ∧
      IsUsual changed := by
  have hstall := hs.1 _ (FileTree.mem_entries_of_some he)
  have hcache : ["c"].isPrefixOf l = false := by
    rw [← Bool.not_eq_true, List.isPrefixOf_iff_prefix]
    exact hout
  simpa only [isStall, hcache, Bool.false_or, Bool.and_eq_true, beq_iff_eq, decide_eq_true_eq] using hstall

theorem StallState.found {s : State} {r : Compile.Compiled} (hs : StallState s)
    (hr : stallEngine.compileFile s.host ⟨"/p"⟩ = .ok r) :
    r.dependencies = [⟨"/n"⟩] ∧ r.resolutions = [⟨"n", some ⟨"/p"⟩, ⟨"/n"⟩⟩] := by
  have hcompiled := hs.2.2.1
  rw [hr] at hcompiled
  exact Prod.mk.inj (Option.some.inj hcompiled)

theorem StallState.apart {s : State} (hs : StallState s) : stallEngine.TemplateApart s.host "p" := by
  obtain ⟨-, hl, hcompiled, -, hcwd⟩ := id hs
  cases hr : stallEngine.compileFile s.host ⟨"/p"⟩ with
  | error failure =>
    rw [hr] at hcompiled
    cases hcompiled
  | ok r =>
    have hproper : s.host.cwd.Proper := by
      rw [hcwd]
      decide
    have hout : ¬stallEngine.InCache s.host.cwd ["p"] := by
      rw [hcwd]
      decide
    refine templateApart_of_compileFile hproper hl hout hr fun m hm hin => ?_
    rw [(hs.found hr).1, List.mem_singleton] at hm
    rw [hcwd] at hin
    obtain ⟨rest, rfl⟩ : ["c"] <+: m := hin
    have htext := congrArg (fun p : Path => p.text.toList) hm
    cases rest <;> simp [Location.toList_path] at htext

theorem stall_template {p : State × Op}
    (hp : p ∈ stallEngine.trace (stall []) [.compile "p", .compile "p"]) : p.2 = .compile "p" := by
  simp only [trace, List.mem_cons, List.not_mem_nil, or_false] at hp
  rcases hp with rfl | rfl <;> rfl

theorem orderly_stall : stallEngine.Orderly (stall []) [.compile "p", .compile "p"] := by
  obtain ⟨hstates, -⟩ := stallStates
  constructor
  · exact ⟨.of_entries (by decide), by decide⟩
  · intro l entry he hin
    have hmem := FileTree.mem_entries_of_some he
    simp only [stall, List.append_nil, List.mem_cons, Prod.mk.injEq, List.not_mem_nil, or_false] at hmem
    rcases hmem with ⟨rfl, -⟩ | ⟨rfl, -⟩ | ⟨rfl, -⟩ | ⟨rfl, -⟩
    · exact absurd hin (by decide)
    · rfl
    · exact absurd hin (by decide)
    · exact absurd hin (by decide)
  · intro p hp
    rw [stall_template hp]
    refine ⟨fun name hname => ?_, trivial⟩
    cases hname
    exact (hstates p hp).apart
  · intro p hp l content changed he hout
    exact ((hstates p hp).file he hout).2
  · intro p hp q hq l content content' changed he he' hout
    have hbytes := ((hstates p hp).file he hout).1.trans ((hstates q hq).file he' hout).1.symm
    cases content
    cases content'
    congr 1
    exact Array.toList_inj.mp hbytes
  · intro p hp q hq name name' hname hname' m hm m' hm' _
    rw [stall_template hp] at hname
    rw [stall_template hq] at hname'
    cases hname
    cases hname'
    rw [(hstates p hp).2.2.2.1, List.mem_singleton] at hm
    rw [(hstates q hq).2.2.2.1, List.mem_singleton] at hm'
    rw [hm, hm']

-- A page that is compiled twice is found in the cache, as it was compiled. The name that it includes
-- still leads to the same note, so a compilation gives the same now.
theorem compile_answers_stall : ∃ loaded s t other r,
    (stallEngine.compile "p").run (stallEngine.after (stall []) [.compile "p"]) = (.ok loaded, s) ∧
      s.counters.hits = 1 ∧ stallEngine.Orderly (stall []) [.compile "p", .compile "p"] ∧
      stallEngine.CompiledIn (stallEngine.trace (stall []) [.compile "p", .compile "p"]) loaded.source t
        other r ∧
      loaded.code = r.code ∧ loaded.dependencies = [⟨"/n"⟩] ∧
      r.resolutions = [⟨"n", some ⟨"/p"⟩, ⟨"/n"⟩⟩] ∧
      stallEngine.compileFile (stallEngine.after (stall []) [.compile "p"]).host loaded.source = .ok r := by
  obtain ⟨hstates, hholds, hresult, hhits⟩ := stallStates
  generalize hrun : (stallEngine.compile "p").run (stallEngine.after (stall []) [.compile "p"]) = out
    at hresult hhits
  obtain ⟨result, s⟩ := out
  cases result with
  | error failure => cases hresult
  | ok loaded =>
    have hanswer := compile_answers stallEngine (stall []) [.compile "p"] "p" loaded s orderly_stall hrun
    obtain ⟨hresolve, t, other, r, hcompiled, hcode, hdependencies, -, hagain⟩ := hanswer
    obtain ⟨op, hpast, -⟩ := hcompiled.past
    have hlast : (stallEngine.after (stall []) [.compile "p"], Op.compile "p") ∈
        stallEngine.trace (stall []) ([.compile "p"] ++ [.compile "p"]) := last_mem_trace
    have hnow := (hstates _ hlast).2.1
    have hsource : loaded.source = ⟨"/p"⟩ := by
      obtain ⟨l, hl, heq⟩ := resolve_eq_ok hresolve
      obtain rfl : ["p"] = l := Except.ok.inj (hnow.symm.trans hl)
      exact heq
    have hthen := hcompiled.compiled
    rw [hsource] at hthen
    obtain ⟨hnotes, hnames⟩ := (hstates _ hpast).found hthen
    refine ⟨loaded, s, t, other, r, rfl, hhits, orderly_stall, hcompiled, hcode,
      hdependencies.trans hnotes, hnames, hagain.mpr fun q hq => ?_⟩
    rw [hnames, List.mem_singleton] at hq
    rw [hq]
    exact hholds

end TemplateEngine.Engine
