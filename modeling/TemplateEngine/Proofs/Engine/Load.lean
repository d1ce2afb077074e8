import TemplateEngine.Engine.Basic
import TemplateEngine.Proofs.Cache.Effects
import TemplateEngine.Proofs.Cache.Material
import TemplateEngine.Proofs.Compile.Apart

-- All that a load can do: answer from the cache, or compile, maybe after entries were removed.
namespace TemplateEngine.Engine

variable {e : Engine} {source : Path}

def InCache (e : Engine) (cwd l : Location) : Prop := e.cache.root cwd <+: l

instance (e : Engine) (cwd l : Location) : Decidable (e.InCache cwd l) :=
  inferInstanceAs (Decidable (_ <+: _))

theorem onFiles_run {α : Type} (action : Action Failure α) (s : State) :
    (onFiles action).run s = ((action.run s.host).1, { s with host := (action.run s.host).2 }) := rfl

theorem ask_run {α : Type} (f : Host → Except Failure α) (s : State) :
    (ask f).run s = (f s.host, s) := by
  unfold ask
  rw [run_get_bind]
  cases f s.host <;> rfl

theorem count_run (f : Counters → Counters) (s : State) :
    (count f).run s = (.ok (), { s with counters := f s.counters }) := rfl

-- Entries were removed from the cache, and no hits counted.
structure Evicted (e : Engine) (s s' : State) : Prop where
  trims : s.host.Trims e.InCache s'.host
  valid : s'.host.Valid
  hits : s'.counters.hits = s.counters.hits

theorem Evicted.of_host_eq {s s' : State} (hv : s.host.Valid) (hhost : s'.host = s.host)
    (hhits : s'.counters.hits = s.counters.hits) : e.Evicted s s' := by
  refine ⟨?_, hhost ▸ hv, hhits⟩
  rw [hhost]
  exact Host.Trims.refl _ _

theorem Evicted.adds {new : Location → Location → ByteArray → Prop} {s s' : State}
    (h : e.Evicted s s') : s.host.Adds new s'.host := h.trims.adds new fun _ => h.valid

theorem Evicted.trans {s s' s'' : State} (h : e.Evicted s s') (h' : e.Evicted s' s'') :
    e.Evicted s s'' :=
  ⟨h.trims.trans h'.trims, h'.valid, h'.hits.trans h.hits⟩

theorem keyOf_plain {h : Host} {dependencies : List Path} {k : Cache.Key}
    (hk : e.keyOf h source dependencies = .ok k) : k.Plain := by
  obtain ⟨files, -, rfl⟩ := Cache.keyOf_eq_ok hk
  exact Cache.Key.ofFiles_plain _ _

theorem evict_evicted {k : Cache.Key} (hk : k.Plain) {s : State} (hv : s.host.Valid) :
    e.Evicted s ((e.evict k).run s).2 := by
  obtain ⟨htrims, hvalid⟩ := e.cache.remove_trims hk hv
  unfold evict
  rw [run_bind, onFiles_run]
  cases hrun : ((e.cache.remove k).run s.host).1 with
  | error failure => exact ⟨htrims, hvalid, rfl⟩
  | ok _ => exact ⟨htrims, hvalid, rfl⟩

-- What a load that finds its program in the cache has found there.
structure Hit (e : Engine) (source : Path) (h : Host) (loaded : Loaded) : Prop where
  found : ∃ i k m, e.index? h source = some i ∧ e.keyOf h source i.dependencies = .ok k ∧
    e.cache.lookup h k = .fresh loaded.code m ∧ loaded.dependencies = m.dependencies
  source : loaded.source = source

-- After entries were removed, nothing is answered from the cache.
theorem evict_misses {k : Cache.Key} (hk : k.Plain) {s : State} (hv : s.host.Valid) :
    (∀ loaded : Loaded, ((e.evict k >>= fun _ => pure none).run s).1 ≠ .ok (some loaded)) ∧
      e.Evicted s ((e.evict k >>= fun _ => pure (none : Option Loaded)).run s).2 := by
  have hevicted := e.evict_evicted hk hv
  rw [run_bind]
  cases hrun : (e.evict k).run s with
  | mk result s' =>
    rw [hrun] at hevicted
    cases result with
    | error failure => exact ⟨fun loaded h => (by cases h), hevicted⟩
    | ok _ => exact ⟨fun loaded h => (by cases h), hevicted⟩

-- What is made of an entry that an index led to.
def answer (e : Engine) (source : Path) (key : Cache.Key) : Cache.Lookup → Work (Option Loaded)
  | .missing => return none
  | .stale => do
    e.evict key
    return none
  | .fresh code metadata =>
    match Program.ofCode? code with
    | some program => do
      count fun c => { c with hits := c.hits + 1 }
      return some ⟨source, code, metadata.dependencies, program⟩
    | none => do
      e.evict key
      return none

theorem cached?_run (e : Engine) (source : Path) (s : State) :
    (e.cached? source).run s =
      match e.index? s.host source with
      | none => (.ok none, s)
      | some i =>
        match e.keyOf s.host source i.dependencies with
        | .error failure => (.error failure, s)
        | .ok k => (e.answer source k (e.cache.lookup s.host k)).run s := by
  unfold cached?
  rw [run_get_bind]
  cases e.index? s.host source with
  | none => rfl
  | some i =>
    dsimp only
    rw [run_bind, ask_run]
    cases e.keyOf s.host source i.dependencies with
    | error failure => rfl
    | ok k =>
      dsimp only
      rw [run_get_bind]
      cases e.cache.lookup s.host k <;> rfl

theorem cached?_cases (e : Engine) (source : Path) {s : State} (hv : s.host.Valid) :
    (∃ loaded, e.Hit source s.host loaded ∧ (e.cached? source).run s =
        (.ok (some loaded), { s with counters := { s.counters with hits := s.counters.hits + 1 } })) ∨
      (∀ loaded, ((e.cached? source).run s).1 ≠ .ok (some loaded)) ∧
        e.Evicted s ((e.cached? source).run s).2 := by
  have hstay : e.Evicted s s := .of_host_eq hv rfl rfl
  rw [cached?_run]
  cases hi : e.index? s.host source with
  | none => exact .inr ⟨fun loaded h => (by cases h), hstay⟩
  | some i =>
    dsimp only
    cases hk : e.keyOf s.host source i.dependencies with
    | error failure => exact .inr ⟨fun loaded h => (by cases h), hstay⟩
    | ok k =>
      dsimp only
      cases hl : e.cache.lookup s.host k with
      | missing => exact .inr ⟨fun loaded h => (by cases h), hstay⟩
      | stale => exact .inr (evict_misses (keyOf_plain hk) hv)
      | fresh code m =>
        unfold answer
        dsimp only
        cases hp : Program.ofCode? code with
        | none => exact .inr (evict_misses (keyOf_plain hk) hv)
        | some program =>
          exact .inl ⟨⟨source, code, m.dependencies, program⟩, ⟨⟨i, k, m, hi, hk, hl, rfl⟩, rfl⟩, rfl⟩

def Keeping (e : Engine) (source : Path) (k : Cache.Key) (r : Compile.Compiled) (cwd l : Location)
    (content : ByteArray) : Prop :=
  l = e.cache.root cwd ++ [k.digits ++ Cache.codeSuffix] ∧ content = r.code.toUTF8 ∨
    l = e.cache.root cwd ++ [k.digits ++ Cache.metaSuffix] ∧
      (∃ t, content = (Cache.Metadata.text ⟨source, r.dependencies, t⟩).toUTF8) ∨
    l = e.cache.root cwd ++ ["index", Cache.digest source.text ++ ".json"]

theorem keep_adds (e : Engine) (source : Path) {k : Cache.Key} (hk : k.Plain) (found : Cache.Lookup)
    (r : Compile.Compiled) (s : State) :
    s.host.Adds (e.Keeping source k r) ((e.keep source k found r).run s).2.host ∧
      ((e.keep source k found r).run s).2.counters = s.counters := by
  have hstore : s.host.Adds (e.Keeping source k r)
      ((e.cache.store k r.code ⟨source, r.dependencies, s.host.clock⟩ r.resolutions).run s.host).2 := by
    refine (e.cache.store_adds hk _ _ _ s.host).mono ?_
    rintro l content (⟨hl, hc⟩ | ⟨hl, hc⟩ | hl)
    · exact .inl ⟨hl, hc⟩
    · exact .inr (.inl ⟨hl, _, hc⟩)
    · exact .inr (.inr hl)
  have hindex : s.host.Adds (e.Keeping source k r)
      ((e.cache.writeIndex ⟨source, r.dependencies, r.resolutions⟩).run s.host).2 :=
    (e.cache.writeIndex_adds _ s.host).mono fun l content hl => .inr (.inr hl)
  unfold keep
  cases found with
  | missing =>
    simp only
    rw [onFiles_run, run_get_bind]
    dsimp only
    exact ⟨hstore, rfl⟩
  | stale =>
    simp only
    rw [onFiles_run, run_get_bind]
    dsimp only
    exact ⟨hstore, rfl⟩
  | fresh code m =>
    simp only
    rw [onFiles_run]
    dsimp only
    exact ⟨hindex, rfl⟩

-- A program that was compiled, its key, and what is left behind.
structure Renewed (e : Engine) (source : Path) (s s' : State) (result : Except Failure Loaded) : Prop where
  compiled : ∃ r k, e.compileFile s.host source = .ok r ∧ e.keyOf s.host source r.dependencies = .ok k ∧
    s.host.Adds (e.Keeping source k r) s'.host ∧
    ∀ loaded, result = .ok loaded →
      loaded.source = source ∧ loaded.code = r.code ∧ loaded.dependencies = r.dependencies
  hits : s'.counters.hits = s.counters.hits

theorem finish_renewed {s : State} {r : Compile.Compiled} {k : Cache.Key} (found : Cache.Lookup)
    (hr : e.compileFile s.host source = .ok r) (hk : e.keyOf s.host source r.dependencies = .ok k) :
    e.Renewed source s ((e.finish source k found r).run s).2 ((e.finish source k found r).run s).1 := by
  obtain ⟨hadds, hcounters⟩ := e.keep_adds source (keyOf_plain hk) found r s
  unfold finish
  rw [run_bind]
  cases hkeep : (e.keep source k found r).run s with
  | mk result s' =>
    rw [hkeep] at hadds hcounters
    have hhits := congrArg Counters.hits hcounters
    cases result with
    | error failure => exact ⟨⟨r, k, hr, hk, hadds, fun loaded h => (by cases h)⟩, hhits⟩
    | ok _ =>
      cases Program.ofCode? r.code with
      | none => exact ⟨⟨r, k, hr, hk, hadds, fun loaded h => (by cases h)⟩, hhits⟩
      | some program =>
        refine ⟨⟨r, k, hr, hk, hadds, fun loaded h => ?_⟩, hhits⟩
        cases h
        exact ⟨rfl, rfl, rfl⟩

theorem recompile_bind (e : Engine) (source : Path) (next : Compile.Compiled × Cache.Key → Work Loaded)
    {s : State} (hv : s.host.Valid) :
    ∃ t, e.Evicted s t ∧
      ((∃ failure, (e.recompile source >>= next).run s = (.error failure, t)) ∨
        ∃ r k, (e.recompile source >>= next).run s = (next (r, k)).run t ∧
          e.compileFile t.host source = .ok r ∧ e.keyOf t.host source r.dependencies = .ok k) := by
  unfold recompile
  rw [run_bind, run_bind, ask_run]
  cases hr : e.compileFile s.host source with
  | error failure => exact ⟨s, .of_host_eq hv rfl rfl, .inl ⟨failure, rfl⟩⟩
  | ok r =>
    dsimp only
    rw [run_bind, count_run]
    dsimp only
    rw [run_bind, ask_run]
    dsimp only
    have hcounted : e.Evicted s
        { s with counters := { s.counters with compiles := s.counters.compiles + 1 } } :=
      .of_host_eq hv rfl rfl
    cases hk : e.keyOf s.host source r.dependencies with
    | error failure => exact ⟨_, hcounted, .inl ⟨failure, rfl⟩⟩
    | ok k => exact ⟨_, hcounted, .inr ⟨r, k, rfl, hr, hk⟩⟩

-- A source is compiled and kept after some entries were removed, or the work fails having only removed
-- some.
theorem renew_ends (e : Engine) (source : Path) (retries : Nat) {s : State} (hv : s.host.Valid) :
    ∃ t, e.Evicted s t ∧
      ((∃ failure, (e.renew source retries).run s = (.error failure, t)) ∨
        ∃ r k, e.compileFile t.host source = .ok r ∧ e.keyOf t.host source r.dependencies = .ok k ∧
          (e.renew source retries).run s = (e.finish source k (e.cache.lookup t.host k) r).run t) := by
  induction retries generalizing s with
  | zero =>
    rw [renew]
    obtain ⟨t, ht, hfails | ⟨r, k, hrun, hr, hk⟩⟩ := e.recompile_bind source _ hv
    · exact ⟨t, ht, .inl hfails⟩
    · rw [hrun, run_get_bind]
      exact ⟨t, ht, .inr ⟨r, k, hr, hk, rfl⟩⟩
  | succ retries ih =>
    rw [renew]
    obtain ⟨t, ht, hfails | ⟨r, k, hrun, hr, hk⟩⟩ := e.recompile_bind source _ hv
    · exact ⟨t, ht, .inl hfails⟩
    · rw [hrun, run_get_bind]
      cases hl : e.cache.lookup t.host k with
      | missing => exact ⟨t, ht, .inr ⟨r, k, hr, hk, by rw [hl]⟩⟩
      | fresh code m => exact ⟨t, ht, .inr ⟨r, k, hr, hk, by rw [hl]⟩⟩
      | stale =>
        have hevicted := e.evict_evicted (keyOf_plain hk) ht.valid
        dsimp only
        rw [run_bind]
        cases hevict : (e.evict k).run t with
        | mk result u =>
          rw [hevict] at hevicted
          cases result with
          | error failure => exact ⟨u, ht.trans hevicted, .inl ⟨failure, rfl⟩⟩
          | ok _ =>
            obtain ⟨v, hlast, hends⟩ := ih hevicted.valid
            exact ⟨v, (ht.trans hevicted).trans hlast, hends⟩

-- A load answers from the cache, or fails having only removed entries, or keeps what it compiled.
theorem load_ends (e : Engine) (source : Path) {s : State} (hv : s.host.Valid) :
    (∃ loaded, e.Hit source s.host loaded ∧ (e.load source).run s =
        (.ok loaded, { s with counters := { s.counters with hits := s.counters.hits + 1 } })) ∨
      (∃ failure t, (e.load source).run s = (.error failure, t) ∧ e.Evicted s t) ∨
        ∃ t u r k, (e.cached? source).run s = (.ok none, t) ∧ e.Evicted s t ∧ e.Evicted t u ∧
          e.compileFile u.host source = .ok r ∧ e.keyOf u.host source r.dependencies = .ok k ∧
          (e.load source).run s = (e.finish source k (e.cache.lookup u.host k) r).run u := by
  unfold load
  rw [run_bind]
  rcases e.cached?_cases source hv with ⟨loaded, hhit, hrun⟩ | ⟨hmiss, hevicted⟩
  · rw [hrun]
    exact .inl ⟨loaded, hhit, rfl⟩
  · right
    cases hrun : (e.cached? source).run s with
    | mk result t =>
      rw [hrun] at hmiss hevicted
      cases result with
      | error failure => exact .inl ⟨failure, t, rfl, hevicted⟩
      | ok found =>
        cases found with
        | some loaded => exact absurd rfl (hmiss loaded)
        | none =>
          dsimp only
          rw [run_bind, count_run]
          dsimp only
          have hcounted : e.Evicted t
              { t with counters := { t.counters with misses := t.counters.misses + 1 } } :=
            .of_host_eq hevicted.valid rfl rfl
          obtain ⟨u, hu, ⟨failure, hrenew⟩ | ⟨r, k, hr, hk, hrenew⟩⟩ :=
            e.renew_ends source maxRetries hcounted.valid
          · exact .inl ⟨failure, u, hrenew, hevicted.trans (hcounted.trans hu)⟩
          · exact .inr ⟨t, u, r, k, rfl, hevicted, hcounted.trans hu, hr, hk, hrenew⟩

-- What is told of a load by what it leaves behind.
theorem load_cases (e : Engine) (source : Path) {s : State} (hv : s.host.Valid) :
    (∃ loaded, e.Hit source s.host loaded ∧ ((e.load source).run s).1 = .ok loaded ∧
        ((e.load source).run s).2.host = s.host ∧
        ((e.load source).run s).2.counters.hits = s.counters.hits + 1) ∨
      ((∀ loaded, ((e.load source).run s).1 ≠ .ok loaded) ∧ e.Evicted s ((e.load source).run s).2) ∨
        ∃ t u, (e.cached? source).run s = (.ok none, t) ∧ e.Evicted s t ∧ e.Evicted t u ∧
          e.Renewed source u ((e.load source).run s).2 ((e.load source).run s).1 := by
  rcases e.load_ends source hv with
    ⟨loaded, hhit, hrun⟩ | ⟨failure, t, hrun, hevicted⟩ | ⟨t, u, r, k, hmiss, ht, hu, hr, hk, hrun⟩
  · rw [hrun]
    exact .inl ⟨loaded, hhit, rfl, rfl, rfl⟩
  · rw [hrun]
    exact .inr (.inl ⟨fun loaded h => (by cases h), hevicted⟩)
  · rw [hrun]
    exact .inr (.inr ⟨t, u, hmiss, ht, hu, finish_renewed _ hr hk⟩)

theorem load_run_ok {e : Engine} {source : Path} {s s' : State} {loaded : Loaded} (hv : s.host.Valid)
    (hrun : (e.load source).run s = (.ok loaded, s')) :
    e.Hit source s.host loaded ∧ s'.host = s.host ∧ s'.counters.hits = s.counters.hits + 1 ∨
      ∃ t u, (e.cached? source).run s = (.ok none, t) ∧ e.Evicted s t ∧ e.Evicted t u ∧
        e.Renewed source u s' (.ok loaded) := by
  have hcases := e.load_cases source hv
  rw [hrun] at hcases
  rcases hcases with ⟨loaded', hhit, heq, hhost, hhits⟩ | ⟨hfails, -⟩ | hrenewed
  · cases heq
    exact .inl ⟨hhit, hhost, hhits⟩
  · exact absurd rfl (hfails loaded)
  · exact .inr hrenewed

end TemplateEngine.Engine
