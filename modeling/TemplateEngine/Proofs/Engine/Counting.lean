import TemplateEngine.Proofs.Engine.Avoid
import TemplateEngine.Proofs.Engine.Session

-- What the counters of an engine say. A load counts one hit, or one miss with the entries that it
-- evicted and its compilations, or it fails before either and counts nothing.
namespace TemplateEngine

-- What the counters say together after any loads.
structure Counters.AddUp (c : Counters) : Prop where
  compiles : c.compiles ≤ c.misses + c.stale
  stale : c.stale ≤ 2 * c.misses

namespace Engine

variable {e : Engine} {source : Path} {s : State}

-- What a search of the cache adds to counters. It counts what it evicted unless it fails.
inductive Searches (c : Counters) : Except Failure (Option Loaded) → Counters → Prop where
  | found (loaded : Loaded) : Searches c (.ok (some loaded)) { c with hits := c.hits + 1 }
  | nothing {evicted : Nat} (hevicted : evicted ≤ 1) :
    Searches c (.ok none) { c with stale := c.stale + evicted }
  | failed (failure : Failure) : Searches c (.error failure) c

-- What compiling adds. Every compilation but the last one is followed by an eviction.
inductive Renews (retries : Nat) (c : Counters) : Counters → Prop where
  | compiled {compiles evicted : Nat} (hcompiles : compiles ≤ evicted + 1) (hevicted : evicted ≤ retries) :
    Renews retries c { c with compiles := c.compiles + compiles, stale := c.stale + evicted }

-- What a load adds.
inductive Counts (c : Counters) : Except Failure Loaded → Counters → Prop where
  | hit (loaded : Loaded) : Counts c (.ok loaded) { c with hits := c.hits + 1 }
  | miss (result : Except Failure Loaded) {compiles found again : Nat} (hcompiles : compiles ≤ again + 1)
      (hfound : found ≤ 1) (hagain : again ≤ maxRetries) :
    Counts c result { c with
      compiles := c.compiles + compiles
      misses := c.misses + 1
      stale := c.stale + found + again }
  | failed (failure : Failure) : Counts c (.error failure) c

-- An entry that cannot be removed is not counted.
theorem evict_cases (e : Engine) (k : Cache.Key) (s : State) : ∃ h,
    (e.evict k).run s = (.ok (), ⟨h, { s.counters with stale := s.counters.stale + 1 }⟩) ∨
      ∃ failure, (e.evict k).run s = (.error failure, ⟨h, s.counters⟩) := by
  unfold evict
  rw [run_bind, onFiles_run]
  refine ⟨((e.cache.remove k).run s.host).2, ?_⟩
  cases ((e.cache.remove k).run s.host).1 with
  | error failure => exact .inr ⟨failure, rfl⟩
  | ok _ => exact .inl rfl

theorem answer_searches (e : Engine) (source : Path) (k : Cache.Key) (found : Cache.Lookup) (s : State) :
    Searches s.counters ((e.answer source k found).run s).1
      ((e.answer source k found).run s).2.counters := by
  have hevict : Searches s.counters ((e.evict k >>= fun _ => pure (none : Option Loaded)).run s).1
      ((e.evict k >>= fun _ => pure (none : Option Loaded)).run s).2.counters := by
    rw [run_bind]
    obtain ⟨h, hrun | ⟨failure, hrun⟩⟩ := e.evict_cases k s
    · rw [hrun]
      exact .nothing (Nat.le_refl 1)
    · rw [hrun]
      exact .failed failure
  unfold answer
  cases found with
  | missing => exact .nothing (Nat.zero_le 1)
  | stale => exact hevict
  | fresh code m =>
    dsimp only
    cases Program.ofCode? code with
    | none => exact hevict
    | some program => exact .found _

theorem cached?_searches (e : Engine) (source : Path) (s : State) :
    Searches s.counters ((e.cached? source).run s).1 ((e.cached? source).run s).2.counters := by
  rw [cached?_run]
  cases e.index? s.host source with
  | none => exact .nothing (Nat.zero_le 1)
  | some i =>
    dsimp only
    cases e.keyOf s.host source i.dependencies with
    | error failure => exact .failed failure
    | ok k => exact e.answer_searches source k _ s

-- Keeping what was compiled counts nothing, and neither does reading it back.
theorem finish_counters (e : Engine) (source : Path) (k : Cache.Key) (found : Cache.Lookup)
    (r : Compile.Compiled) (s : State) : ((e.finish source k found r).run s).2.counters = s.counters := by
  have hkeep : ((e.keep source k found r).run s).2.counters = s.counters := by
    unfold keep
    cases found <;> simp only <;> rw [onFiles_run]
  unfold finish
  rw [run_bind]
  generalize (e.keep source k found r).run s = out at hkeep
  obtain ⟨result, t⟩ := out
  cases result with
  | error failure => exact hkeep
  | ok _ => cases Program.ofCode? r.code <;> exact hkeep

-- A source that cannot be compiled is not counted, one that has no key is.
theorem recompile_counters (e : Engine) (source : Path) (s : State) :
    (∃ failure, ∃ compiles ≤ 1, (e.recompile source).run s =
        (.error failure,
          { s with counters := { s.counters with compiles := s.counters.compiles + compiles } })) ∨
      ∃ r, (e.recompile source).run s =
        (.ok r, { s with counters := { s.counters with compiles := s.counters.compiles + 1 } }) := by
  unfold recompile
  rw [run_bind, ask_run]
  cases e.compileFile s.host source with
  | error failure => exact .inl ⟨failure, 0, Nat.zero_le 1, rfl⟩
  | ok r =>
    dsimp only
    rw [run_bind, count_run]
    dsimp only
    rw [run_bind, ask_run]
    dsimp only
    cases e.keyOf s.host source r.dependencies with
    | error failure => exact .inl ⟨failure, 1, Nat.le_refl 1, rfl⟩
    | ok k => exact .inr ⟨(r, k), rfl⟩

theorem Renews.once {c : Counters} {compiles : Nat} (hcompiles : compiles ≤ 1) (retries : Nat) :
    Renews retries c { c with compiles := c.compiles + compiles } := by
  have hnone : c.stale + 0 = c.stale := Nat.add_zero _
  rw [← hnone]
  exact .compiled hcompiles (Nat.zero_le retries)

theorem Renews.again {c c' : Counters} {retries : Nat}
    (h : Renews retries { c with compiles := c.compiles + 1, stale := c.stale + 1 } c') :
    Renews (retries + 1) c c' := by
  obtain ⟨hcompiles, hevicted⟩ := h
  simp only [Nat.add_assoc]
  exact .compiled (by omega) (by omega)

theorem renew_renews (e : Engine) (source : Path) (retries : Nat) (s : State) :
    Renews retries s.counters ((e.renew source retries).run s).2.counters := by
  induction retries generalizing s with
  | zero =>
    rw [renew, run_bind]
    rcases e.recompile_counters source s with ⟨failure, compiles, hcompiles, hrun⟩ | ⟨⟨r, k⟩, hrun⟩
    · rw [hrun]
      exact .once hcompiles 0
    · rw [hrun]
      dsimp only
      rw [run_get_bind, finish_counters]
      exact .once (Nat.le_refl 1) 0
  | succ retries ih =>
    rw [renew, run_bind]
    rcases e.recompile_counters source s with ⟨failure, compiles, hcompiles, hrun⟩ | ⟨⟨r, k⟩, hrun⟩
    · rw [hrun]
      exact .once hcompiles _
    · rw [hrun]
      dsimp only
      rw [run_get_bind]
      dsimp only
      cases hl : e.cache.lookup s.host k with
      | missing =>
        dsimp only
        rw [finish_counters]
        exact .once (Nat.le_refl 1) _
      | fresh code m =>
        dsimp only
        rw [finish_counters]
        exact .once (Nat.le_refl 1) _
      | stale =>
        dsimp only
        rw [run_bind]
        obtain ⟨h, hevict | ⟨failure, hevict⟩⟩ := e.evict_cases k
          { s with counters := { s.counters with compiles := s.counters.compiles + 1 } }
        · rw [hevict]
          have hlast := ih
            ⟨h, { s.counters with compiles := s.counters.compiles + 1, stale := s.counters.stale + 1 }⟩
          exact hlast.again
        · rw [hevict]
          exact .once (Nat.le_refl 1) _

theorem load_counts (e : Engine) (source : Path) (s : State) :
    Counts s.counters ((e.load source).run s).1 ((e.load source).run s).2.counters := by
  have hsearch := e.cached?_searches source s
  unfold load
  rw [run_bind]
  generalize (e.cached? source).run s = out at hsearch ⊢
  obtain ⟨result, t⟩ := out
  dsimp only at hsearch
  generalize hcounters : t.counters = c at hsearch
  cases hsearch with
  | found loaded =>
    change Counts _ (.ok loaded) t.counters
    rw [hcounters]
    exact .hit loaded
  | failed failure =>
    change Counts _ (.error failure) t.counters
    rw [hcounters]
    exact .failed failure
  | @nothing found hfound =>
    dsimp only
    rw [run_bind, count_run]
    dsimp only
    have hrenew := e.renew_renews source maxRetries
      { t with counters := { t.counters with misses := t.counters.misses + 1 } }
    rw [hcounters] at hrenew ⊢
    generalize (e.renew source maxRetries).run _ = out at hrenew ⊢
    obtain ⟨result, u⟩ := out
    dsimp only at hrenew ⊢
    generalize u.counters = c' at hrenew
    obtain ⟨hcompiles, hagain⟩ := hrenew
    exact .miss result hcompiles hfound hagain

-- The states of an engine that loads templates. Others may change any file between two loads, those of
-- the cache too, and filters may be added.
inductive Reachable (e : Engine) : State → Prop where
  | start (h : Host) : Reachable e ⟨h, .zero⟩
  | change {s : State} (hs : Reachable e s) (h : Host) : Reachable e { s with host := h }
  | load {s : State} (hs : Reachable e s) (registry : Registry) (source : Path) :
    Reachable e (({ e with registry }.load source).run s).2

theorem Counts.addUp {c c' : Counters} {result : Except Failure Loaded} (h : Counts c result c')
    (hc : c.AddUp) : c'.AddUp := by
  obtain ⟨hcompiles, hstale⟩ := hc
  cases h with
  | hit loaded => exact ⟨hcompiles, hstale⟩
  | failed failure => exact ⟨hcompiles, hstale⟩
  | miss result hnew hfound hagain =>
    simp only [maxRetries] at hagain
    constructor <;> dsimp only <;> omega

theorem Reachable.addUp (hs : e.Reachable s) : s.counters.AddUp := by
  induction hs with
  | start h => exact ⟨Nat.le_refl 0, Nat.le_refl 0⟩
  | change hs h ih => exact ih
  | load hs registry source ih => exact (load_counts _ source _).addUp ih

-- What users call loads at most once.
theorem Reachable.compile (hs : e.Reachable s) (registry : Registry) (name : String) :
    e.Reachable (({ e with registry }.compile name).run s).2 := by
  rw [compile_run]
  cases ({ e with registry } : Engine).resolve s.host name with
  | error failure => exact hs
  | ok source => exact hs.load registry source

theorem Reachable.render (hs : e.Reachable s) (registry : Registry) (name : String) (vars : Value) :
    e.Reachable (({ e with registry }.render name vars).run s).2 := by
  rw [render_run]
  split
  · exact hs.compile registry name
  · exact hs

-- After any loads, compilations are accounted for by misses and evictions, and there are no more than
-- two evictions for each miss. The next load counts one hit or one miss if it succeeds, no more than a
-- hit if it counts one, and no more than two compilations.
theorem counters_add_up (e : Engine) (s : State) (hs : e.Reachable s) :
    s.counters.compiles ≤ s.counters.misses + s.counters.stale ∧
      s.counters.stale ≤ 2 * s.counters.misses ∧
      ∀ registry source result t, ({ e with registry }.load source).run s = (result, t) →
        (∀ loaded, result = .ok loaded →
          t.counters.hits + t.counters.misses = s.counters.hits + s.counters.misses + 1) ∧
        (t.counters.hits ≠ s.counters.hits →
          t.counters.compiles = s.counters.compiles ∧ t.counters.stale = s.counters.stale) ∧
        t.counters.compiles ≤ s.counters.compiles + 2 := by
  obtain ⟨hcompiles, hstale⟩ := hs.addUp
  refine ⟨hcompiles, hstale, fun registry source result t hrun => ?_⟩
  have hcounts := load_counts { e with registry } source s
  rw [hrun] at hcounts
  dsimp only at hcounts
  generalize t.counters = c at hcounts ⊢
  cases hcounts with
  | hit loaded => exact ⟨fun _ _ => Nat.add_right_comm _ _ _, fun _ => ⟨rfl, rfl⟩, Nat.le_add_right _ _⟩
  | failed failure => exact ⟨nofun, fun hne => absurd rfl hne, Nat.le_add_right _ _⟩
  | miss result hnew hfound hagain =>
    simp only [maxRetries] at hagain
    exact ⟨fun _ _ => rfl, fun hne => absurd rfl hne, by dsimp only; omega⟩

-- The metadata of the page's entry cannot be read, and there is no index.
private def spoiled : State := stall
  [(["c", "d4cb5cdc697aa70ed8e17c87bec300e936df355829ebf7fa70fd5b7c328ce55d.meta.json"],
    .file "?".toUTF8 ⟨4, 0⟩)]

-- The entry is found after the first compilation, and the second one takes its place.
theorem counters_add_up_spoiled : ∃ loaded s, (stallEngine.load ⟨"/p"⟩).run spoiled = (.ok loaded, s) ∧
    stallEngine.Reachable spoiled ∧ stallEngine.Reachable s ∧ s.counters = ⟨2, 0, 1, 1⟩ ∧
    s.counters.hits + s.counters.misses = spoiled.counters.hits + spoiled.counters.misses + 1 ∧
    s.counters.compiles ≤ spoiled.counters.compiles + 2 ∧
    s.counters.compiles ≤ s.counters.misses + s.counters.stale ∧
    s.counters.stale ≤ 2 * s.counters.misses := by
  have hruns : ((stallEngine.load ⟨"/p"⟩).run spoiled).1.toBool = true ∧
      ((stallEngine.load ⟨"/p"⟩).run spoiled).2.counters = ⟨2, 0, 1, 1⟩ := by
    decide +kernel
  have hstart : stallEngine.Reachable spoiled := .start spoiled.host
  have hs := hstart.load stallEngine.registry ⟨"/p"⟩
  obtain ⟨-, -, hload⟩ := counters_add_up stallEngine spoiled hstart
  obtain ⟨hcompiles, hstale, -⟩ := counters_add_up stallEngine _ hs
  cases hrun : (stallEngine.load ⟨"/p"⟩).run spoiled with
  | mk result s =>
    obtain ⟨hone, -, htwice⟩ := hload stallEngine.registry ⟨"/p"⟩ result s hrun
    rw [hrun] at hruns hs hcompiles hstale
    obtain ⟨hok, hcounters⟩ := hruns
    cases result with
    | error failure => cases hok
    | ok loaded =>
      exact ⟨loaded, s, rfl, hstart, hs, hcounters, hone loaded rfl, htwice, hcompiles, hstale⟩

end Engine

end TemplateEngine
