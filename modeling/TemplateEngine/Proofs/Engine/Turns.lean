import TemplateEngine.Proofs.Compile.WellFormed
import TemplateEngine.Proofs.Engine.Session
import TemplateEngine.Proofs.Engine.Settling
import TemplateEngine.Proofs.Program.RoundTrip

-- Engines with filters of their own that take turns on one cache. A key does not tell which filters
-- were registered when its program was compiled, so an engine may be answered with the program of
-- another one. It uses filters of that one.
namespace TemplateEngine

-- A program of the present version that refers to no template, and uses filters of a registry only.
structure Program.SealedFor (registry : Registry) (p : Program) : Prop where
  version : p.version = Program.currentVersion
  leaves : ∀ n ∈ Node.leavesOf p.nodes, n.Sealed registry

theorem Program.SealedFor.mono {registry registry' : Registry} {p : Program} (h : p.SealedFor registry)
    (hmore : ∀ name, registry.contains name = true → registry'.contains name = true) :
    p.SealedFor registry' := by
  refine ⟨h.version, fun n hn => ?_⟩
  obtain ⟨hfilters, hextending, hincluding⟩ := h.leaves n hn
  refine ⟨fun expr filters escape he => ?_, hextending, hincluding⟩
  obtain ⟨hraw, hall⟩ := hfilters expr filters escape he
  exact ⟨hraw, fun f hf => hmore f (hall f hf)⟩

theorem Program.SealedFor.sized {registry : Registry} {p : Program} (h : p.SealedFor registry) :
    p.Sized := by
  refine ⟨by rw [h.version]; decide, fun n hn => ?_⟩
  obtain ⟨-, hextending, hincluding⟩ := h.leaves n hn
  cases n with
  | extending name line => exact absurd rfl (hextending name line)
  | including name line => exact absurd rfl (hincluding name line)
  | _ => trivial

-- A sealed program comes back from its code, if anything does.
theorem Program.SealedFor.eq_of_code {registry : Registry} {p q : Program} (h : p.SealedFor registry)
    (hq : Program.ofCode? p.code = some q) : q = p := by
  have hread : Json.Document.read? p.code = some p.encode :=
    Json.Document.read?_toText (Program.textual_encode h.sized)
  rw [Program.ofCode?, hread, Option.bind_some, Program.decode?_encode h.sized] at hq
  split at hq
  · exact (Option.some.inj hq).symm
  · cases hq

namespace Engine

open Compile

variable {e : Engine} {source : Path} {loaded : Loaded} {s s' : State} {h h' : Host}

theorem compileFile_sealedFor {r : Compiled} (hr : e.compileFile h source = .ok r) :
    r.program.SealedFor e.registry := by
  obtain ⟨text, -, hcompile⟩ := compileFile_eq_ok.mp hr
  obtain ⟨nodes, t, hrun, rfl⟩ := compile_run_ok hcompile
  exact ⟨rfl, link_sealed (c := e.compiler) _ ⟨text, some (h.absolute source)⟩ hrun⟩

theorem evict_run_ne {k : Cache.Key} :
    (e.evict k >>= fun _ => pure (none : Option Loaded)).run s ≠ (.ok (some loaded), s') := by
  intro hrun
  obtain ⟨_, t, -, hnone⟩ := run_bind_ok hrun
  cases hnone

theorem cached?_program (hrun : (e.cached? source).run s = (.ok (some loaded), s')) :
    Program.ofCode? loaded.code = some loaded.program := by
  rw [cached?_run] at hrun
  cases hi : e.index? s.host source with
  | none =>
    rw [hi] at hrun
    cases hrun
  | some i =>
    rw [hi] at hrun
    cases hk : e.keyOf s.host source i.dependencies with
    | error failure =>
      simp only [hk] at hrun
      cases hrun
    | ok k =>
      simp only [hk] at hrun
      cases hl : e.cache.lookup s.host k with
      | missing =>
        rw [hl] at hrun
        cases hrun
      | stale =>
        rw [hl] at hrun
        exact absurd hrun evict_run_ne
      | fresh code m =>
        rw [hl, answer] at hrun
        cases hp : Program.ofCode? code with
        | none =>
          rw [hp] at hrun
          exact absurd hrun evict_run_ne
        | some program =>
          rw [hp] at hrun
          cases hrun
          exact hp

theorem renew_program {retries : Nat} (hrun : (e.renew source retries).run s = (.ok loaded, s')) :
    Program.ofCode? loaded.code = some loaded.program := by
  induction retries using Nat.strongRecOn generalizing s with
  | ind retries ih =>
    obtain ⟨r, k, t, hr, hk, ht, hfinish | ⟨others, u, rfl, -, -, hrenew⟩⟩ := renew_step hrun
    · rw [← ht] at hr hk
      obtain ⟨hcompiles, -⟩ := finish_eq_ok hr hk hfinish
      rw [hcompiles.loaded]
      exact hcompiles.program
    · exact ih others (Nat.lt_succ_self _) hrenew

-- What a load answers is read from the code that it answers.
theorem load_program (hrun : (e.load source).run s = (.ok loaded, s')) :
    Program.ofCode? loaded.code = some loaded.program := by
  unfold load at hrun
  obtain ⟨found, t, hcached, hrun⟩ := run_bind_ok hrun
  cases found with
  | some loaded' =>
    obtain ⟨hloaded, rfl⟩ := Prod.mk.inj hrun
    cases hloaded
    exact cached?_program hcached
  | none =>
    obtain ⟨_, u, -, hrenew⟩ := run_bind_ok hrun
    exact renew_program hrenew

-- A compilation adds code of a program that is sealed for the filters of its engine. What else it
-- adds is no code.
def Coded (e : Engine) (cwd l : Location) (content : ByteArray) : Prop :=
  ∀ stem, l = e.cache.root cwd ++ [stem ++ Cache.codeSuffix] →
    ∃ p : Program, p.SealedFor e.registry ∧ content = p.code.toUTF8

theorem coded_of_keeping {r : Compiled} {k : Cache.Key} {cwd l : Location} {content : ByteArray}
    (hr : r.program.SealedFor e.registry) (hl : e.Keeping source k r cwd l content) :
    e.Coded cwd l content := by
  rintro stem rfl
  rcases hl with ⟨-, hcontent⟩ | ⟨hl, -⟩ | hl
  · exact ⟨r.program, hr, hcontent⟩
  · have hname := List.singleton_inj.mp (List.append_cancel_left hl)
    exact absurd hname (Cache.suffix_ne _ _)
  · have hlength := congrArg List.length hl
    simp at hlength

theorem compile_adds (e : Engine) (name : String) {s : State} (hv : s.host.Valid) :
    s.host.Adds e.Coded ((e.compile name).run s).2.host := by
  rw [compile_run]
  cases e.resolve s.host name with
  | error failure => exact Host.Adds.refl _ _
  | ok source =>
    dsimp only
    have hcases := e.load_cases source hv
    generalize (e.load source).run s = out at hcases ⊢
    rcases hcases with
      ⟨loaded, -, -, hhost, -⟩ | ⟨-, hevicted⟩ | ⟨t, u, -, ht, hu, ⟨r, k, hr, -, hadds, -⟩, -⟩
    · rw [hhost]
      exact Host.Adds.refl _ _
    · exact hevicted.adds
    · have hcoded := hadds.mono fun l content => coded_of_keeping (compileFile_sealedFor hr)
      exact (ht.trans hu).adds.trans _ _ _ _ hcoded

-- Someone sets up an engine, or an engine performs an operation.
inductive Turn where
  | sets (settings : Settings) (registry : Registry)
  | performs (e : Engine) (counters : Counters) (op : Op)

namespace Turn

def perform (h : Host) : Turn → Host
  | sets settings registry => ((create settings registry).run h).2
  | performs e counters op => (op.perform e ⟨h, counters⟩).host

def registry? : Turn → Option Registry
  | sets _ _ => none
  | performs e _ _ => some e.registry

-- Whether the engine has the cache, and others leave writing into it to the engines.
def Shares (cache : Cache) (home : Location) : Turn → Prop
  | sets _ _ => True
  | performs e _ op => e.cache = cache ∧ ∀ l content changed, op = .write l content changed →
      ¬cache.root home <+: l

end Turn

def afterTurns (h : Host) (turns : List Turn) : Host := turns.foldl Turn.perform h

-- A cache whose code is of programs that are sealed for the filters used so far.
structure Stocked (cache : Cache) (home : Location) (used : List Registry) (h : Host) : Prop where
  valid : h.Valid
  cwd : h.cwd = home
  sealed : ∀ stem content changed,
    h.tree.entry? (cache.root home ++ [stem ++ Cache.codeSuffix]) = some (.file content changed) →
      ∃ registry ∈ used, ∃ p : Program, p.SealedFor registry ∧ content = p.code.toUTF8

variable {cache : Cache} {home : Location} {used used' : List Registry}

theorem Stocked.of_adds {new : Location → Location → ByteArray → Prop} (hs : Stocked cache home used h)
    (hused : used ⊆ used') (hadds : h.Adds new h')
    (hnew : ∀ stem content, new home (cache.root home ++ [stem ++ Cache.codeSuffix]) content →
      ∃ registry ∈ used', ∃ p : Program, p.SealedFor registry ∧ content = p.code.toUTF8) :
    Stocked cache home used' h' := by
  refine ⟨hadds.valid hs.valid, hadds.cwd.trans hs.cwd, fun stem content changed he => ?_⟩
  rcases hadds.files _ content changed he with he | he
  · obtain ⟨registry, hregistry, hp⟩ := hs.sealed stem content changed he
    exact ⟨registry, hused hregistry, hp⟩
  · rw [hs.cwd] at he
    exact hnew stem content he

theorem create_adds (settings : Settings) (registry : Registry) (h : Host) :
    h.Adds (fun _ _ _ => False) ((create settings registry).run h).2 := by
  have hcreate : Keeps (Host.Adds fun _ _ _ => False) (Cache.create settings.cacheDir) := by
    unfold Cache.create
    exact Keeps.bind (Host.Adds.trans _) ((Action.ensureDirectory_adds _).adapt _) fun _ s =>
      Host.Adds.refl _ s
  unfold create
  split
  · exact Keeps.bind (Host.Adds.trans _) hcreate (fun _ s => Host.Adds.refl _ s) h
  · exact Host.Adds.refl _ h

theorem Stocked.perform {turn : Turn} (hs : Stocked cache home used h) (hshares : turn.Shares cache home) :
    Stocked cache home (used ++ turn.registry?.toList) (turn.perform h) := by
  cases turn with
  | sets settings registry =>
    exact hs.of_adds (List.subset_append_left _ _) (create_adds settings registry h) fun _ _ => False.elim
  | performs e counters op =>
    obtain ⟨rfl, hwrites⟩ := hshares
    cases hop : op.template? with
    | some name =>
      dsimp only [Turn.perform]
      rw [perform_template hop]
      refine hs.of_adds (List.subset_append_left _ _) (e.compile_adds name (s := ⟨h, counters⟩) hs.valid)
        fun stem content hnew => ?_
      exact ⟨e.registry, by simp [Turn.registry?], hnew stem rfl⟩
    | none =>
      refine hs.of_adds (List.subset_append_left _ _) (e.perform_quiet hop ⟨h, counters⟩) ?_
      rintro stem content ⟨changed, hwrite⟩
      exact absurd (List.prefix_append _ _) (hwrites _ _ _ hwrite)

theorem Stocked.afterTurns (turns : List Turn) (hs : Stocked cache home used h)
    (hshares : ∀ turn ∈ turns, turn.Shares cache home) :
    Stocked cache home (used ++ turns.filterMap Turn.registry?) (afterTurns h turns) := by
  induction turns generalizing used h with
  | nil => simpa [Engine.afterTurns] using hs
  | cons turn turns ih =>
    rw [List.forall_mem_cons] at hshares
    have hrest := ih (hs.perform hshares.1) hshares.2
    cases hregistry : turn.registry? <;>
      simpa [Engine.afterTurns, hregistry] using hrest

-- A cache in which there is nothing holds no code of anyone.
theorem stocked_start (hv : h.Valid) (hvacant : ∀ l entry, h.tree.entry? l = some entry →
    cache.root h.cwd <+: l → l = cache.root h.cwd) : Stocked cache h.cwd [] h := by
  refine ⟨hv, rfl, fun stem content changed he => ?_⟩
  have hl := hvacant _ _ he (List.prefix_append _ _)
  simp at hl

theorem Hit.sealedFor (hs : Stocked e.cache home used h) (hhit : e.Hit source h loaded)
    (hprogram : Program.ofCode? loaded.code = some loaded.program) :
    ∃ registry ∈ used, loaded.program.SealedFor registry := by
  obtain ⟨i, k, m, -, hk, hl, -⟩ := hhit.found
  obtain ⟨-, changed, hcode⟩ := Cache.lookup_eq_fresh (keyOf_plain hk) hl
  rw [hs.cwd] at hcode
  obtain ⟨registry, hregistry, p, hp, hcontent⟩ := hs.sealed _ _ _ hcode
  rw [toUTF8_inj hcontent] at hprogram
  exact ⟨registry, hregistry, hp.eq_of_code hprogram ▸ hp⟩

theorem Renewed.sealedFor {t t' : State} (hrenewed : e.Renewed source t t' (.ok loaded))
    (hprogram : Program.ofCode? loaded.code = some loaded.program) : loaded.program.SealedFor e.registry := by
  obtain ⟨r, k, hr, -, -, hloaded⟩ := hrenewed.compiled
  obtain ⟨-, hcode, -⟩ := hloaded loaded rfl
  have hsealed := compileFile_sealedFor hr
  rw [hcode] at hprogram
  exact hsealed.eq_of_code hprogram ▸ hsealed

-- Engines take turns on a cache that is empty at first. What one of them then compiles uses its own
-- filters, or, where the answer counts as a hit, those of an engine that had a turn. If it has all
-- the filters of these engines, then the program runs without faults of its own.
theorem compile_after_turns (e : Engine) (start : Host) (turns : List Turn) (counters : Counters)
    (name : String) (loaded : Loaded) (s : State) (hvalid : start.Valid)
    (hvacant : ∀ l entry, start.tree.entry? l = some entry → e.cache.root start.cwd <+: l →
      l = e.cache.root start.cwd)
    (hshares : ∀ turn ∈ turns, turn.Shares e.cache start.cwd)
    (hok : (e.compile name).run ⟨afterTurns start turns, counters⟩ = (.ok loaded, s)) :
    (s.counters.hits = counters.hits ∧ loaded.program.SealedFor e.registry ∨
      s.counters.hits = counters.hits + 1 ∧
        ∃ registry ∈ turns.filterMap Turn.registry?, loaded.program.SealedFor registry) ∧
    ((∀ registry ∈ turns.filterMap Turn.registry?, ∀ filter,
        registry.contains filter = true → e.registry.contains filter = true) →
      loaded.program.SealedFor e.registry ∧
        ∀ (template : String) (bindings : Bindings) (failure : Render.Failure),
          Render.render e.rules template loaded.program bindings = .error failure →
            (∀ message, failure.fault ≠ .invalidProgram message) ∧
              ∀ filter, failure.fault ≠ .unknownFilter filter) := by
  have hstocked : Stocked e.cache start.cwd (turns.filterMap Turn.registry?) (afterTurns start turns) := by
    simpa using (stocked_start hvalid hvacant).afterTurns turns hshares
  have hsource : s.counters.hits = counters.hits ∧ loaded.program.SealedFor e.registry ∨
      s.counters.hits = counters.hits + 1 ∧
        ∃ registry ∈ turns.filterMap Turn.registry?, loaded.program.SealedFor registry := by
    obtain ⟨source, -, hload⟩ := load_of_compile hok
    have hprogram := load_program hload
    rcases load_run_ok hstocked.valid hload with ⟨hhit, -, hhits⟩ | ⟨t, u, -, ht, hu, hrenewed⟩
    · exact .inr ⟨hhits, hhit.sealedFor hstocked hprogram⟩
    · exact .inl ⟨hrenewed.hits.trans (hu.hits.trans ht.hits), hrenewed.sealedFor hprogram⟩
  refine ⟨hsource, fun hmore => ?_⟩
  have hsealed : loaded.program.SealedFor e.registry := by
    rcases hsource with ⟨-, hown⟩ | ⟨-, registry, hregistry, hother⟩
    · exact hown
    · exact hother.mono (hmore registry hregistry)
  refine ⟨hsealed, fun template bindings failure hfailure => ?_⟩
  have hsafe := Render.render_safe hsealed.version hsealed.leaves hfailure
  exact ⟨fun message he => hsafe (he ▸ .invalidProgram message),
    fun filter he => hsafe (he ▸ .unknownFilter filter)⟩

-- A page whose filter one engine has and another has not.
private def loudPage : Host where
  tree := ⟨[(["c"], .directory ⟨0, 0⟩), (["p"], .file "\x7b\x7b x | shout \x7d\x7d".toUTF8 ⟨0, 1⟩)]⟩
  cwd := []
  clock := ⟨4, 0⟩
  cacheHome := none

private def quietEngine : Engine := ⟨⟨⟨""⟩, ⟨"c"⟩, "", true, false⟩, .basic, ⟨⟨"c"⟩⟩⟩

private def loudEngine : Engine := { quietEngine with registry := Registry.basic.add "shout" .ok }

private def loudTurns : List Turn :=
  [.sets loudEngine.settings loudEngine.registry, .performs loudEngine .zero (.compile "p")]

-- The engine without the filter finds the program, which it cannot run.
theorem loud_answer :
    ((quietEngine.compile "p").run ⟨afterTurns loudPage loudTurns, .zero⟩).1.toBool = true ∧
      ((quietEngine.compile "p").run ⟨afterTurns loudPage loudTurns, .zero⟩).2.counters.hits = 1 ∧
      ((quietEngine.render "p" (.object [("x", .null)])).run ⟨afterTurns loudPage loudTurns, .zero⟩).1 =
        .error (.render ⟨"p", .unknownFilter "shout"⟩) := by
  decide +kernel

theorem compile_after_turns_loud : ∃ loaded s,
    (quietEngine.compile "p").run ⟨afterTurns loudPage loudTurns, .zero⟩ = (.ok loaded, s) ∧
      s.counters.hits = 1 ∧ loudPage.Valid ∧
      (∀ l entry, loudPage.tree.entry? l = some entry → quietEngine.cache.root loudPage.cwd <+: l →
        l = quietEngine.cache.root loudPage.cwd) ∧
      (∀ turn ∈ loudTurns, turn.Shares quietEngine.cache loudPage.cwd) ∧
      loaded.program.SealedFor loudEngine.registry := by
  have hvalid : loudPage.Valid := ⟨.of_entries (by decide), by decide⟩
  have hvacant : ∀ l entry, loudPage.tree.entry? l = some entry →
      quietEngine.cache.root loudPage.cwd <+: l → l = quietEngine.cache.root loudPage.cwd := by
    intro l entry he hin
    have hmem := FileTree.mem_entries_of_some he
    simp only [loudPage, List.mem_cons, Prod.mk.injEq, List.not_mem_nil, or_false] at hmem
    rcases hmem with ⟨rfl, -⟩ | ⟨rfl, -⟩
    · rfl
    · exact absurd hin (by decide)
  have hshares : ∀ turn ∈ loudTurns, turn.Shares quietEngine.cache loudPage.cwd := by
    simp [loudTurns, Turn.Shares, loudEngine]
  obtain ⟨hresult, hhits, -⟩ := loud_answer
  generalize hrun : (quietEngine.compile "p").run ⟨afterTurns loudPage loudTurns, .zero⟩ = out
    at hresult hhits
  obtain ⟨result, s⟩ := out
  cases result with
  | error failure => cases hresult
  | ok loaded =>
    have hturns := compile_after_turns quietEngine loudPage loudTurns .zero "p" loaded s hvalid hvacant
      hshares hrun
    refine ⟨loaded, s, rfl, hhits, hvalid, hvacant, hshares, ?_⟩
    rcases hturns.1 with ⟨hnone, -⟩ | ⟨-, registry, hregistry, hsealed⟩
    · rw [hhits] at hnone
      cases hnone
    · simp only [loudTurns, List.filterMap_cons, Turn.registry?, List.filterMap_nil,
        List.mem_singleton] at hregistry
      exact hregistry ▸ hsealed

end Engine

end TemplateEngine
