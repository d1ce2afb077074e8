import TemplateEngine.Proofs.Cache.Tending
import TemplateEngine.Proofs.Engine.Avoid

-- A template that is loaded again and again while no file changes. Whatever is in the cache at first,
-- the second load that succeeds leaves an index and an entry that belong together, and from then on
-- they answer.
namespace TemplateEngine.Engine

variable {e : Engine} {h h' : Host} {s s' : State} {source : Path} {name : String} {loaded : Loaded}
  {r : Compile.Compiled} {k : Cache.Key}

-- What a load finds in the cache, whole and readable.
structure Answers (e : Engine) (source : Path) (h : Host) (loaded : Loaded) : Prop
    extends Hit e source h loaded where
  program : Program.ofCode? loaded.code = some loaded.program

def countHit (s : State) : State := { s with counters := { s.counters with hits := s.counters.hits + 1 } }

theorem cached?_of_answers (ha : e.Answers source s.host loaded) :
    (e.cached? source).run s = (.ok (some loaded), countHit s) := by
  obtain ⟨⟨⟨i, k, m, hi, hk, hl, hdependencies⟩, hsource⟩, hprogram⟩ := ha
  obtain ⟨source', code, dependencies, program⟩ := loaded
  dsimp only at hl hdependencies hsource hprogram
  subst hsource hdependencies
  rw [cached?_run, hi]
  dsimp only
  rw [hk]
  dsimp only
  rw [hl, answer, hprogram]
  rfl

theorem load_of_answers (ha : e.Answers source s.host loaded) :
    (e.load source).run s = (.ok loaded, countHit s) := by
  unfold load
  rw [run_bind, cached?_of_answers ha]
  rfl

theorem onFiles_eq_ok {α : Type} {action : Action Failure α} {a : α}
    (hrun : (onFiles action).run s = (.ok a, s')) : action.run s.host = (.ok a, s'.host) := by
  rw [onFiles_run] at hrun
  obtain ⟨hok, rfl⟩ := Prod.mk.inj hrun
  exact Prod.ext hok rfl

theorem evict_eq_ok (hr : e.cache.Ready s.host) (hk : k.Plain) (hrun : (e.evict k).run s = (.ok (), s')) :
    e.cache.Removed k s.host s'.host := by
  unfold evict at hrun
  obtain ⟨_, t, hremove, hcount⟩ := run_bind_ok hrun
  rw [count_run] at hcount
  have hhost : s'.host = t.host := congrArg (fun p => p.2.host) hcount.symm
  rw [hhost]
  exact hr.removed hk (onFiles_eq_ok hremove)

-- An entry answers if it is fresh and its code can be read. Otherwise nothing is left of it.
theorem answer_eq_ok (hr : e.cache.Ready s.host) (hk : k.Plain) {found : Option Loaded}
    (hrun : (e.answer source k (e.cache.lookup s.host k)).run s = (.ok found, s')) :
    (∃ code m program, e.cache.lookup s.host k = .fresh code m ∧ Program.ofCode? code = some program ∧
        found = some ⟨source, code, m.dependencies, program⟩ ∧ s' = countHit s) ∨
      found = none ∧ e.cache.Tends s.host s'.host ∧ e.cache.lookup s'.host k = .missing := by
  have hevict : (e.evict k >>= fun _ => pure (none : Option Loaded)).run s = (.ok found, s') →
      found = none ∧ e.cache.Tends s.host s'.host ∧ e.cache.lookup s'.host k = .missing := by
    intro hrun
    obtain ⟨_, t, hevict, hnone⟩ := run_bind_ok hrun
    obtain ⟨hfound, rfl⟩ := Prod.mk.inj hnone
    have hremoved := evict_eq_ok hr hk hevict
    exact ⟨(Except.ok.inj hfound).symm, hremoved.tends, hremoved.lookup hk⟩
  cases hl : e.cache.lookup s.host k with
  | missing =>
    rw [hl] at hrun
    obtain ⟨hfound, rfl⟩ := Prod.mk.inj hrun
    exact .inr ⟨(Except.ok.inj hfound).symm, hr.tends_refl, hl⟩
  | stale =>
    rw [hl] at hrun
    exact .inr (hevict hrun)
  | fresh code m =>
    rw [hl, answer] at hrun
    cases hp : Program.ofCode? code with
    | none =>
      rw [hp] at hrun
      exact .inr (hevict hrun)
    | some program =>
      rw [hp] at hrun
      obtain ⟨hfound, rfl⟩ := Prod.mk.inj hrun
      exact .inl ⟨code, m, program, rfl, hp, (Except.ok.inj hfound).symm, rfl⟩

-- Where the cache does not answer, nothing is left under the key that the index led to.
theorem cached?_eq_ok (hr : e.cache.Ready s.host) {found : Option Loaded}
    (hrun : (e.cached? source).run s = (.ok found, s')) :
    (∃ loaded, found = some loaded ∧ e.Answers source s.host loaded ∧ s' = countHit s) ∨
      found = none ∧ e.cache.Tends s.host s'.host ∧
        ∀ i k, e.index? s.host source = some i → e.keyOf s.host source i.dependencies = .ok k →
          e.cache.lookup s'.host k = .missing := by
  rw [cached?_run] at hrun
  cases hi : e.index? s.host source with
  | none =>
    rw [hi] at hrun
    obtain ⟨hfound, rfl⟩ := Prod.mk.inj hrun
    exact .inr ⟨(Except.ok.inj hfound).symm, hr.tends_refl, nofun⟩
  | some i =>
    rw [hi] at hrun
    dsimp only at hrun
    cases hk : e.keyOf s.host source i.dependencies with
    | error failure =>
      rw [hk] at hrun
      cases hrun
    | ok k =>
      rw [hk] at hrun
      rcases answer_eq_ok hr (keyOf_plain hk) hrun with
        ⟨code, m, program, hl, hp, rfl, rfl⟩ | ⟨rfl, htends, hmissing⟩
      · exact .inl ⟨_, rfl, ⟨⟨⟨i, k, m, hi, hk, hl, rfl⟩, rfl⟩, hp⟩, rfl⟩
      · refine .inr ⟨rfl, htends, fun i' k' hi' hk' => ?_⟩
        cases hi'
        cases hk.symm.trans hk'
        exact hmissing

-- A program that was compiled from a source, and the key for it.
structure Compiles (e : Engine) (source : Path) (r : Compile.Compiled) (k : Cache.Key) (h : Host)
    (loaded : Loaded) : Prop where
  compiled : e.compileFile h source = .ok r
  key : e.keyOf h source r.dependencies = .ok k
  program : Program.ofCode? r.code = some loaded.program
  loaded : loaded = ⟨source, r.code, r.dependencies, loaded.program⟩

theorem recompile_eq_ok (hrun : (e.recompile source).run s = (.ok (r, k), s')) :
    e.compileFile s.host source = .ok r ∧ e.keyOf s.host source r.dependencies = .ok k ∧ s'.host = s.host := by
  unfold recompile at hrun
  obtain ⟨r', t, hcompile, hrun⟩ := run_bind_ok hrun
  rw [ask_run] at hcompile
  obtain ⟨hr, rfl⟩ := Prod.mk.inj hcompile
  obtain ⟨_, t, hcount, hrun⟩ := run_bind_ok hrun
  rw [count_run] at hcount
  obtain ⟨-, rfl⟩ := Prod.mk.inj hcount
  obtain ⟨k', t, hkey, hrun⟩ := run_bind_ok hrun
  rw [ask_run] at hkey
  obtain ⟨hk, rfl⟩ := Prod.mk.inj hkey
  obtain ⟨hpair, rfl⟩ := Prod.mk.inj hrun
  cases hpair
  exact ⟨hr, hk, rfl⟩

-- How a compiled program is kept: as an entry with an index, or only as an index where there is a
-- fresh entry.
def Retains (e : Engine) (source : Path) (r : Compile.Compiled) (k : Cache.Key) (h h' : Host) : Prop :=
  (e.cache.store k r.code ⟨source, r.dependencies, h.clock⟩ r.resolutions).run h = (.ok (), h') ∨
    (∃ code m, e.cache.lookup h k = .fresh code m) ∧
      (e.cache.writeIndex ⟨source, r.dependencies, r.resolutions⟩).run h = (.ok (), h')

theorem finish_eq_ok (hr : e.compileFile s.host source = .ok r)
    (hk : e.keyOf s.host source r.dependencies = .ok k)
    (hrun : (e.finish source k (e.cache.lookup s.host k) r).run s = (.ok loaded, s')) :
    e.Compiles source r k s.host loaded ∧ e.Retains source r k s.host s'.host := by
  unfold finish at hrun
  obtain ⟨_, t, hkeep, hrun⟩ := run_bind_ok hrun
  cases hp : Program.ofCode? r.code with
  | none =>
    rw [hp] at hrun
    cases hrun
  | some program =>
    rw [hp] at hrun
    obtain ⟨hloaded, rfl⟩ := Prod.mk.inj hrun
    cases hloaded
    refine ⟨⟨hr, hk, hp, rfl⟩, ?_⟩
    unfold keep at hkeep
    unfold Retains
    cases hl : e.cache.lookup s.host k with
    | fresh code m =>
      rw [hl] at hkeep
      exact .inr ⟨⟨code, m, rfl⟩, onFiles_eq_ok hkeep⟩
    | missing =>
      rw [hl] at hkeep
      have hstore := onFiles_eq_ok hkeep
      rw [run_get_bind] at hstore
      exact .inl hstore
    | stale =>
      rw [hl] at hkeep
      have hstore := onFiles_eq_ok hkeep
      rw [run_get_bind] at hstore
      exact .inl hstore

-- A compilation is the last one, or it found a stale entry under its key, which goes before the next.
theorem renew_step {retries : Nat} (hrun : (e.renew source retries).run s = (.ok loaded, s')) :
    ∃ r k t, e.compileFile s.host source = .ok r ∧ e.keyOf s.host source r.dependencies = .ok k ∧
      t.host = s.host ∧ ((e.finish source k (e.cache.lookup t.host k) r).run t = (.ok loaded, s') ∨
        ∃ others u, retries = others + 1 ∧ e.cache.lookup t.host k = .stale ∧
          (e.evict k).run t = (.ok (), u) ∧ (e.renew source others).run u = (.ok loaded, s')) := by
  cases retries with
  | zero =>
    unfold renew at hrun
    obtain ⟨⟨r, k⟩, t, hcompile, hrun⟩ := run_bind_ok hrun
    obtain ⟨hr, hk, ht⟩ := recompile_eq_ok hcompile
    rw [run_get_bind] at hrun
    exact ⟨r, k, t, hr, hk, ht, .inl hrun⟩
  | succ others =>
    unfold renew at hrun
    obtain ⟨⟨r, k⟩, t, hcompile, hrun⟩ := run_bind_ok hrun
    obtain ⟨hr, hk, ht⟩ := recompile_eq_ok hcompile
    dsimp only at hrun
    rw [run_get_bind] at hrun
    refine ⟨r, k, t, hr, hk, ht, ?_⟩
    cases hl : e.cache.lookup t.host k with
    | stale =>
      rw [hl] at hrun
      obtain ⟨_, u, hevict, hrun⟩ := run_bind_ok hrun
      exact .inr ⟨others, u, rfl, rfl, hevict, hrun⟩
    | missing =>
      rw [hl] at hrun
      exact .inl hrun
    | fresh code m =>
      rw [hl] at hrun
      exact .inl hrun

theorem renew_eq_ok {retries : Nat} (hready : e.cache.Ready s.host)
    (hrun : (e.renew source retries).run s = (.ok loaded, s')) :
    ∃ h r k, e.cache.Tends s.host h ∧ e.Compiles source r k h loaded ∧ e.Retains source r k h s'.host := by
  induction retries using Nat.strongRecOn generalizing s with
  | ind retries ih =>
    obtain ⟨r, k, t, hr, hk, ht, houtcome⟩ := renew_step hrun
    rw [← ht] at hr hk hready ⊢
    rcases houtcome with hfinish | ⟨others, u, rfl, -, hevict, hrenew⟩
    · obtain ⟨hcompiles, hretains⟩ := finish_eq_ok hr hk hfinish
      exact ⟨t.host, r, k, hready.tends_refl, hcompiles, hretains⟩
    · have htends := (evict_eq_ok hready (keyOf_plain hk) hevict).tends
      obtain ⟨h, r', k', hh, hrest⟩ := ih others (Nat.lt_succ_self _) htends.ready hrenew
      exact ⟨h, r', k', htends.trans hh, hrest⟩

-- Where there is nothing under the key, the program is stored.
theorem renew_of_missing {retries : Nat} (hr : e.compileFile s.host source = .ok r)
    (hk : e.keyOf s.host source r.dependencies = .ok k) (hl : e.cache.lookup s.host k = .missing)
    (hrun : (e.renew source retries).run s = (.ok loaded, s')) :
    e.Compiles source r k s.host loaded ∧
      (e.cache.store k r.code ⟨source, r.dependencies, s.host.clock⟩ r.resolutions).run s.host =
        (.ok (), s'.host) := by
  obtain ⟨r', k', t, hr', hk', ht, houtcome⟩ := renew_step hrun
  cases hr.symm.trans hr'
  cases hk.symm.trans hk'
  rw [← ht] at hr hk hl ⊢
  rcases houtcome with hfinish | ⟨_, _, -, hstale, -⟩
  · obtain ⟨hcompiles, hstore | ⟨⟨code, m, hfresh⟩, -⟩⟩ := finish_eq_ok hr hk hfinish
    · exact ⟨hcompiles, hstore⟩
    · rw [hl] at hfresh
      cases hfresh
  · rw [hl] at hstale
    cases hstale

theorem load_eq_ok (hready : e.cache.Ready s.host) (hrun : (e.load source).run s = (.ok loaded, s')) :
    e.Answers source s.host loaded ∧ s' = countHit s ∨
      ∃ t : State, e.cache.Tends s.host t.host ∧
        (∀ i k, e.index? s.host source = some i → e.keyOf s.host source i.dependencies = .ok k →
          e.cache.lookup t.host k = .missing) ∧
        (e.renew source maxRetries).run t = (.ok loaded, s') := by
  unfold load at hrun
  obtain ⟨found, t, hcached, hrun⟩ := run_bind_ok hrun
  rcases cached?_eq_ok hready hcached with ⟨loaded', rfl, hanswers, rfl⟩ | ⟨rfl, htends, hmissing⟩
  · obtain ⟨hloaded, rfl⟩ := Prod.mk.inj hrun
    cases hloaded
    exact .inl ⟨hanswers, rfl⟩
  · obtain ⟨_, u, hcount, hrun⟩ := run_bind_ok hrun
    rw [count_run] at hcount
    have hhost : u.host = t.host := congrArg (fun p => p.2.host) hcount.symm
    exact .inr ⟨u, hhost ▸ htends, hhost ▸ hmissing, hrun⟩

theorem changed_of_keyOf {dependencies : List Path} (hk : e.keyOf h source dependencies = .ok k) :
    ∀ p ∈ source :: dependencies, ∃ t, h.changed p = .ok t := by
  obtain ⟨files, hfiles, -⟩ := Cache.keyOf_eq_ok hk
  obtain ⟨hpaths, hchanged⟩ := Cache.mapM_stamped_eq_ok hfiles
  intro p hp
  rw [← hpaths] at hp
  obtain ⟨stamped, hstamped, rfl⟩ := List.mem_map.mp hp
  exact ⟨_, hchanged stamped hstamped⟩

theorem present_of_changed {p : Path} {t : Instant} (ht : h.changed p = .ok t) : h.present p = true := by
  unfold Host.changed Host.entryAt at ht
  unfold Host.present
  cases hr : h.resolve p with
  | error fault =>
    rw [hr] at ht
    cases ht
  | ok l => rfl

-- Whether no file outside the cache is from a later time.
def Past (e : Engine) (base : Host) (now : Instant) : Prop :=
  ∀ l content changed, ¬e.cache.Owns base.cwd l → base.tree.entry? l = some (.file content changed) →
    changed.atMost now = true

variable {base : Host} {now : Instant}

theorem past_of_entries (hentries : ∀ p ∈ base.tree.entries, p.2.changed.atMost now = true) :
    e.Past base now :=
  fun _ _ _ _ he => hentries _ (FileTree.mem_entries_of_some he)

namespace Leads

theorem tends (hl : e.Leads base name source h) (ht : e.cache.Tends h h') : e.Leads base name source h' :=
  ⟨hl.avoids, hl.cwd, hl.resolved, hl.same.trans (hl.same.cwd ▸ ht.same)⟩

-- What a compilation wrote into an index is found there as long as it is.
theorem index? (hl : e.Leads base name source h) (hready : e.cache.Ready h)
    (hr : e.compileFile base source = .ok r) (hk : e.keyOf base source r.dependencies = .ok k)
    (hi : e.cache.Indexed ⟨source, r.dependencies, r.resolutions⟩ h) :
    e.index? h source = some ⟨source, r.dependencies, r.resolutions⟩ := by
  obtain ⟨l, hplace, -⟩ := hl.avoids.of_resolve hl.cwd hl.resolved
  have hdependencies : r.dependencies.all h.present = true := by
    rw [List.all_eq_true]
    intro p hp
    obtain ⟨t, ht⟩ := changed_of_keyOf ((hl.keyOf hr).trans hk) p (List.mem_cons_of_mem _ hp)
    exact present_of_changed ht
  have hholds : r.resolutions.all (·.holds e.settings.compileOptions h) = true := by
    rw [List.all_eq_true]
    have hr' := hl.compileFile.trans hr
    rw [hplace.path] at hr'
    exact compileFile_holds hplace.proper hr'
  have hindex := hi.index?_eq hready
  dsimp only at hindex
  rw [if_pos hdependencies] at hindex
  unfold Engine.index?
  rw [hindex]
  change (if r.resolutions.all (·.holds e.settings.compileOptions h) = true then _ else _) = _
  rw [if_pos hholds]
  rfl

-- A compilation is fresh while none of its files is from a later time.
theorem isFresh (hl : e.Leads base name source h) (hr : e.compileFile base source = .ok r)
    (hk : e.keyOf base source r.dependencies = .ok k) (hpast : e.Past base now) :
    Cache.Metadata.isFresh ⟨source, r.dependencies, now⟩ h = true := by
  unfold Cache.Metadata.isFresh
  rw [List.all_eq_true]
  intro p hp
  obtain ⟨l, hplace⟩ := hl.avoids.places hl.cwd hl.resolved hr p hp
  obtain ⟨t, ht⟩ := changed_of_keyOf hk p hp
  unfold Cache.Metadata.covers
  rw [changed_of_sameBut hl.same hplace, ht]
  obtain ⟨hproper, hout, rfl, content, changed, he⟩ := hplace
  rw [Host.changed_eq_of_file hproper he ht]
  exact hpast l content changed hout he

end Leads

-- A program that is stored answers from then on.
theorem Compiles.answers (hc : e.Compiles source r k h loaded) (hl : e.Leads base name source h)
    (hready : e.cache.Ready h) (hdated : h.clock.Dated) (hpast : e.Past base h.clock)
    (hrun : (e.cache.store k r.code ⟨source, r.dependencies, h.clock⟩ r.resolutions).run h = (.ok (), h')) :
    e.Answers source h' loaded := by
  have hplain := keyOf_plain hc.key
  have hs := hready.stored hplain hrun
  have hr := hl.compileFile.symm.trans hc.compiled
  have hk := (hl.keyOf hr).symm.trans hc.key
  have hl' := hl.tends hs.tends
  have hfresh := hl'.isFresh hr hk hpast
  have hlookup := (hs.filed hplain hdated).lookup hs.ready
  rw [if_pos hfresh] at hlookup
  rw [hc.loaded]
  exact ⟨⟨⟨_, k, _, hl'.index? hs.ready hr hk hs.indexed, (hl'.keyOf hr).trans hk, hlookup, rfl⟩, rfl⟩, hc.program⟩

-- The index of a source is what a compilation of it would write.
def Primed (e : Engine) (base : Host) (source : Path) (h : Host) : Prop :=
  ∃ r k, e.compileFile base source = .ok r ∧ e.keyOf base source r.dependencies = .ok k ∧
    e.index? h source = some ⟨source, r.dependencies, r.resolutions⟩

-- After one load the cache answers, or the index is right.
theorem Leads.load (hl : e.Leads base name source s.host) (hready : e.cache.Ready s.host)
    (hdated : s.host.clock.Dated) (hpast : e.Past base s.host.clock)
    (hrun : (e.load source).run s = (.ok loaded, s')) :
    e.cache.Tends s.host s'.host ∧ (e.Answers source s'.host loaded ∨ e.Primed base source s'.host) := by
  rcases load_eq_ok hready hrun with ⟨hanswers, rfl⟩ | ⟨t, ht, -, hrenew⟩
  · exact ⟨hready.tends_refl, .inl hanswers⟩
  · obtain ⟨u, r, k, hu, hc, hstore | ⟨-, hindex⟩⟩ := renew_eq_ok ht.ready hrenew
    · have htends := ht.trans hu
      have hs := hu.ready.stored (keyOf_plain hc.key) hstore
      refine ⟨htends.trans hs.tends, .inl ?_⟩
      rw [← htends.clock] at hdated hpast
      exact hc.answers (hl.tends htends) hu.ready hdated hpast hstore
    · have htends := ht.trans hu
      have hl' := hl.tends htends
      obtain ⟨hlast, hindexed⟩ := hu.ready.wroteIndex hindex
      have hr := hl'.compileFile.symm.trans hc.compiled
      have hk := (hl'.keyOf hr).symm.trans hc.key
      exact ⟨htends.trans hlast, .inr ⟨r, k, hr, hk, (hl'.tends hlast).index? hlast.ready hr hk hindexed⟩⟩

-- After a load with a right index the cache answers.
theorem Leads.load_primed (hl : e.Leads base name source s.host) (hready : e.cache.Ready s.host)
    (hdated : s.host.clock.Dated) (hpast : e.Past base s.host.clock) (hprimed : e.Primed base source s.host)
    (hrun : (e.load source).run s = (.ok loaded, s')) : e.Answers source s'.host loaded := by
  rcases load_eq_ok hready hrun with ⟨hanswers, rfl⟩ | ⟨t, ht, hmissing, hrenew⟩
  · exact hanswers
  · obtain ⟨r, k, hr, hk, hi⟩ := hprimed
    have hl' := hl.tends ht
    have hnone := hmissing _ k hi ((hl.keyOf hr).trans hk)
    obtain ⟨hc, hstore⟩ := renew_of_missing (hl'.compileFile.trans hr) ((hl'.keyOf hr).trans hk) hnone hrenew
    rw [← ht.clock] at hdated hpast
    exact hc.answers hl' ht.ready hdated hpast hstore

-- The root of a tree has a time of its own where the tree lists it.
theorem changed_tick (hv : s.host.Valid) (hroot : (s.host.tree.entry? []).isSome = true) (now : Instant)
    (p : Path) : (s.tick now).host.changed p = s.host.changed p := by
  have hsame : (s.tick now).host.resolve p = s.host.resolve p := rfl
  unfold Host.changed Host.entryAt
  rw [hsame]
  cases hr : s.host.resolve p with
  | error fault => rfl
  | ok l =>
    have hentry : (s.tick now).host.tree.entry? l = s.host.tree.entry? l := rfl
    dsimp only
    rw [hentry]
    cases he : s.host.tree.entry? l with
    | some entry => rfl
    | none =>
      obtain rfl := hv.tree.eq_nil_of_resolve hr he
      rw [he] at hroot
      cases hroot

theorem lookup_tick (hv : s.host.Valid) (hroot : (s.host.tree.entry? []).isSome = true) (now : Instant)
    (c : Cache) (k : Cache.Key) : c.lookup (s.tick now).host k = c.lookup s.host k := by
  have hfresh : ∀ m : Cache.Metadata, m.isFresh (s.tick now).host = m.isFresh s.host := by
    intro m
    unfold Cache.Metadata.isFresh Cache.Metadata.covers
    simp only [changed_tick hv hroot]
  unfold Cache.lookup
  simp only [hfresh]
  rfl

theorem index?_tick (e : Engine) (source : Path) (s : State) (now : Instant) :
    e.index? (s.tick now).host source = e.index? s.host source := rfl

theorem Answers.tick (ha : e.Answers source s.host loaded) (hv : s.host.Valid)
    (hroot : (s.host.tree.entry? []).isSome = true) (now : Instant) :
    e.Answers source (s.tick now).host loaded := by
  obtain ⟨⟨⟨i, k, m, hi, hk, hl, hdependencies⟩, hsource⟩, hprogram⟩ := ha
  rw [← index?_tick e source s now] at hi
  rw [← lookup_tick hv hroot now] at hl
  refine ⟨⟨⟨i, k, m, hi, ?_, hl, hdependencies⟩, hsource⟩, hprogram⟩
  rw [← hk]
  unfold Engine.keyOf Cache.keyOf Cache.stamped
  simp only [changed_tick hv hroot]

def visit (e : Engine) (name : String) (s : State) (now : Instant) : Except Failure Loaded × State :=
  (e.compile name).run (s.tick now)

-- A template is loaded at one time after the other.
def visits (e : Engine) (name : String) (s : State) (times : List Instant) : State :=
  times.foldl (fun s now => (e.visit name s now).2) s

-- A state in which a template is answered from the cache.
structure Settled (e : Engine) (base : Host) (name : String) (source : Path) (loaded : Loaded) (s : State) :
    Prop where
  leads : e.Leads base name source s.host
  valid : s.host.Valid
  root : (s.host.tree.entry? []).isSome = true
  answers : e.Answers source s.host loaded

theorem visit_of_resolve (hr : e.resolve (s.tick now).host name = .ok source) :
    e.visit name s now = (e.load source).run (s.tick now) := by
  unfold Engine.visit
  rw [compile_run, hr]

theorem resolve_of_visit (hvisit : e.visit name s now = (.ok loaded, s')) :
    ∃ source, e.resolve s.host name = .ok source := by
  have hsame : e.resolve (s.tick now).host name = e.resolve s.host name := rfl
  unfold Engine.visit at hvisit
  rw [compile_run, hsame] at hvisit
  cases hr : e.resolve s.host name with
  | error failure =>
    rw [hr] at hvisit
    cases hvisit
  | ok source => exact ⟨source, rfl⟩

theorem Settled.visit (hs : e.Settled base name source loaded s) (now : Instant) :
    e.visit name s now = (.ok loaded, countHit (s.tick now)) ∧
      e.Settled base name source loaded (countHit (s.tick now)) := by
  have hanswers := hs.answers.tick hs.valid hs.root now
  have hleads := hs.leads.tick now
  refine ⟨?_, ⟨hleads, ⟨hs.valid.tree, hs.valid.cwd⟩, hs.root, hanswers⟩⟩
  rw [visit_of_resolve hleads.resolve, load_of_answers hanswers]

theorem Settled.visits (hs : e.Settled base name source loaded s) (times : List Instant) :
    e.Settled base name source loaded (e.visits name s times) := by
  induction times generalizing s with
  | nil => exact hs
  | cons now times ih =>
    obtain ⟨hvisit, hsettled⟩ := hs.visit now
    change e.Settled base name source loaded (e.visits name (e.visit name s now).2 times)
    rw [hvisit]
    exact ih hsettled

theorem Leads.settled (hl : e.Leads base name source s.host) (hready : e.cache.Ready s.host)
    (hroot : (base.tree.entry? []).isSome = true) (ha : e.Answers source s.host loaded) :
    e.Settled base name source loaded s := by
  refine ⟨hl, hready.valid, ?_, ha⟩
  rw [hl.same.entries [] fun howns => howns.ne_nil rfl]
  exact hroot

-- A template is loaded twice with success, while no file outside the cache changes, nor the root, which
-- has a time of its own. Whatever was in the cache at first, every load from then on gives what the
-- second gave: it is a hit, and nothing changes but the number of hits.
theorem visits_settle (e : Engine) (name : String) (s s₁ s₂ : State) (t₁ t₂ : Instant)
    (first loaded : Loaded) (hv : s.host.Valid) (hroot : (s.host.tree.entry? []).isSome = true)
    (ho : e.cache.Open s.host) (ha : e.Avoids s.host name) (ht₁ : t₁.Dated ∧ e.Past s.host t₁)
    (ht₂ : t₂.Dated ∧ e.Past s.host t₂) (hfirst : e.visit name s t₁ = (.ok first, s₁))
    (hsecond : e.visit name s₁ t₂ = (.ok loaded, s₂)) (times : List Instant) (now : Instant) :
    e.visit name (e.visits name s₂ times) now =
      (.ok loaded, countHit ((e.visits name s₂ times).tick now)) := by
  have hready : e.cache.Ready s.host := ho.ready hv
  obtain ⟨source, hresolved⟩ := resolve_of_visit hfirst
  have hleads : e.Leads s.host name source s.host := ⟨ha, hv.cwd, hresolved, .refl _ _⟩
  rw [visit_of_resolve (hleads.tick t₁).resolve] at hfirst
  obtain ⟨htends₁, houtcome⟩ := (hleads.tick t₁).load (hready.tick t₁) ht₁.1 ht₁.2 hfirst
  have hleads₁ := (hleads.tick t₁).tends htends₁
  have hready₁ := htends₁.ready.tick t₂
  rw [visit_of_resolve (hleads₁.tick t₂).resolve] at hsecond
  obtain ⟨htends₂, -⟩ := (hleads₁.tick t₂).load hready₁ ht₂.1 ht₂.2 hsecond
  have hleads₂ := (hleads₁.tick t₂).tends htends₂
  have hanswers : e.Answers source s₂.host loaded := by
    rcases houtcome with hanswers | hprimed
    · -- The first load left an answer, which the second one found.
      have hsettled := hleads₁.settled htends₁.ready hroot hanswers
      have hfound := hanswers.tick hsettled.valid hsettled.root t₂
      obtain ⟨hsame, rfl⟩ := Prod.mk.inj ((load_of_answers hfound).symm.trans hsecond)
      cases hsame
      exact hfound
    · exact (hleads₁.tick t₂).load_primed hready₁ ht₂.1 ht₂.2 hprimed hsecond
  have hsettled := (hleads₂.settled htends₂.ready hroot hanswers).visits times
  exact (hsettled.visit now).1

-- An entry for the page that holds no program. There is no index that leads to it.
def stallKept : List (Location × Entry) :=
  [(["c", "d4cb5cdc697aa70ed8e17c87bec300e936df355829ebf7fa70fd5b7c328ce55d.code.json"],
      .file "?".toUTF8 ⟨4, 0⟩),
    (["c", "d4cb5cdc697aa70ed8e17c87bec300e936df355829ebf7fa70fd5b7c328ce55d.meta.json"],
      .file (Cache.Metadata.text ⟨⟨"/p"⟩, [⟨"/n"⟩], ⟨4, 0⟩⟩).toUTF8 ⟨4, 0⟩)]

def stallFirst : Except Failure Loaded × State := stallEngine.visit "p" (stall stallKept) ⟨5, 0⟩

def stallSecond : Except Failure Loaded × State := stallEngine.visit "p" stallFirst.2 ⟨6, 0⟩

-- The first load finds no index, and the second one an entry to evict.
theorem stallVisits : stallFirst.1.toBool = true ∧ stallSecond.1.toBool = true ∧
    stallSecond.2.counters = ⟨2, 0, 2, 1⟩ := by
  decide +kernel

theorem stallKept_avoids : stallEngine.Avoids (stall stallKept).host "p" :=
  avoids_of_compileFile (l := ["p"]) (by decide) (by decide) (by decide) (by decide +kernel)

-- The third load and the fourth find what the second one stored.
theorem visits_settle_stall : ∃ first loaded s₁ s₂,
    stallEngine.visit "p" (stall stallKept) ⟨5, 0⟩ = (.ok first, s₁) ∧
      stallEngine.visit "p" s₁ ⟨6, 0⟩ = (.ok loaded, s₂) ∧ s₂.counters = ⟨2, 0, 2, 1⟩ ∧
      stallEngine.visit "p" (stallEngine.visits "p" s₂ [⟨7, 0⟩]) ⟨8, 0⟩ =
        (.ok loaded, countHit ((stallEngine.visits "p" s₂ [⟨7, 0⟩]).tick ⟨8, 0⟩)) := by
  obtain ⟨hfirst, hsecond, hcounters⟩ := stallVisits
  unfold stallSecond at hsecond hcounters
  unfold stallFirst at hfirst hsecond hcounters
  generalize hvisit : stallEngine.visit "p" (stall stallKept) ⟨5, 0⟩ = visited at hfirst hsecond hcounters
  obtain ⟨_ | first, s₁⟩ := visited
  · cases hfirst
  · dsimp only at hsecond hcounters
    generalize hvisit' : stallEngine.visit "p" s₁ ⟨6, 0⟩ = visited at hsecond hcounters
    obtain ⟨_ | loaded, s₂⟩ := visited
    · cases hsecond
    · refine ⟨first, loaded, s₁, s₂, rfl, hvisit', hcounters, ?_⟩
      exact visits_settle stallEngine "p" (stall stallKept) s₁ s₂ ⟨5, 0⟩ ⟨6, 0⟩ first loaded
        ⟨.of_entries (by decide), by decide⟩ (by decide) (by decide) stallKept_avoids
        ⟨by decide, past_of_entries (by decide)⟩ ⟨by decide, past_of_entries (by decide)⟩ hvisit hvisit'
        [⟨7, 0⟩] ⟨8, 0⟩

end TemplateEngine.Engine
