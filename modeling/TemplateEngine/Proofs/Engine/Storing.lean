import TemplateEngine.Engine.Render
import TemplateEngine.Proofs.Engine.Healing

-- Loading and rendering with any operation that stores. A cache may be closed to writing, full, or have a
-- path that is too long; when storing fails, and how, is left open here, and what a load gives is told
-- from what storing gives.
namespace TemplateEngine.Engine

-- What stores an entry and its index, or fails.
abbrev Storage := Cache.Key → String → Cache.Metadata → List Compile.Resolution → Action Failure Unit

section Steps

variable (e : Engine) (storage : Storage)

-- The steps of an engine, with another operation in the place of the one of its cache.
def keepBy (source : Path) (key : Cache.Key) (found : Cache.Lookup) (c : Compile.Compiled) : Work Unit :=
  match found with
  | .fresh _ _ => onFiles (e.cache.writeIndex ⟨source, c.dependencies, c.resolutions⟩)
  | .missing | .stale => onFiles do
    storage key c.code ⟨source, c.dependencies, (← get).clock⟩ c.resolutions

def finishBy (source : Path) (key : Cache.Key) (found : Cache.Lookup) (c : Compile.Compiled) :
    Work Loaded := do
  e.keepBy storage source key found c
  match Program.ofCode? c.code with
  | some program => return ⟨source, c.code, c.dependencies, program⟩
  | none => throw (.compile ⟨source, .undecodable⟩)

def renewBy (source : Path) : (retries : Nat) → Work Loaded
  | 0 => do
    let (compiled, key) ← e.recompile source
    e.finishBy storage source key (e.cache.lookup (← get).host key) compiled
  | retries + 1 => do
    let (compiled, key) ← e.recompile source
    match e.cache.lookup (← get).host key with
    | .stale => do
      e.evict key
      renewBy source retries
    | found => e.finishBy storage source key found compiled

def loadBy (source : Path) : Work Loaded := do
  match ← e.cached? source with
  | some loaded => return loaded
  | none =>
    count fun c => { c with misses := c.misses + 1 }
    e.renewBy storage source maxRetries

def compileBy (name : String) : Work Loaded := do e.loadBy storage (← ask (e.resolve · name))

def renderBy (name : String) (vars : Value) : Work String := do
  let bindings ← liftExcept (bindingsOf vars)
  let loaded ← e.compileBy storage name
  liftExcept (e.run name loaded.program bindings)

end Steps

variable {e : Engine} {storage : Storage} {s : State} {h : Host} {source : Path} {loaded : Loaded}
  {name : String} {failure : Failure}

theorem keepBy_store (e : Engine) (source : Path) (k : Cache.Key) (found : Cache.Lookup)
    (r : Compile.Compiled) : e.keepBy e.cache.store source k found r = e.keep source k found r := by
  cases found <;> rfl

theorem finishBy_store (e : Engine) (source : Path) (k : Cache.Key) (found : Cache.Lookup)
    (r : Compile.Compiled) : e.finishBy e.cache.store source k found r = e.finish source k found r := by
  unfold finishBy finish
  exact congrArg (· >>= _) (keepBy_store e source k found r)

theorem renewBy_store (e : Engine) (source : Path) (retries : Nat) :
    e.renewBy e.cache.store source retries = e.renew source retries := by
  induction retries with
  | zero =>
    unfold renewBy renew
    exact bind_congr fun made => bind_congr fun s => finishBy_store e source made.2 _ made.1
  | succ retries ih =>
    unfold renewBy renew
    refine bind_congr fun made => bind_congr fun s => ?_
    cases e.cache.lookup s.host made.2 with
    | stale => exact bind_congr fun _ => ih
    | missing => exact finishBy_store e source made.2 _ made.1
    | fresh code m => exact finishBy_store e source made.2 _ made.1

theorem loadBy_store (e : Engine) (source : Path) : e.loadBy e.cache.store source = e.load source := by
  unfold loadBy load
  refine bind_congr fun found => ?_
  cases found with
  | some loaded => rfl
  | none => exact bind_congr fun _ => renewBy_store e source maxRetries

-- With the operation of its cache an engine renders as it does.
theorem renderBy_store (e : Engine) (name : String) (vars : Value) :
    e.renderBy e.cache.store name vars = e.render name vars := by
  have hcompile : e.compileBy e.cache.store name = e.compile name := by
    unfold compileBy compile
    exact bind_congr fun source => loadBy_store e source
  unfold renderBy render
  exact bind_congr fun bindings => congrArg (· >>= _) hcompile

-- What storing the result of a compilation gives.
def storedBy (storage : Storage) (h : Host) (source : Path) (r : Compile.Compiled) (k : Cache.Key) :
    Except Failure Unit :=
  ((storage k r.code ⟨source, r.dependencies, h.clock⟩ r.resolutions).run h).1

-- Whether what a source compiles to, if it does, can be stored.
def Stores (e : Engine) (storage : Storage) (h : Host) (source : Path) : Prop :=
  ∀ r k, e.compileFile h source = .ok r → e.keyOf h source r.dependencies = .ok k →
    storedBy storage h source r k = .ok ()

-- Whether a source compiles and storing the result fails.
def Refuses (e : Engine) (storage : Storage) (h : Host) (source : Path) (failure : Failure) : Prop :=
  ∃ r k, e.compileFile h source = .ok r ∧ e.keyOf h source r.dependencies = .ok k ∧
    storedBy storage h source r k = .error failure

-- What a load gives where the cache has nothing for its source.
def outcomeBy (e : Engine) (storage : Storage) (h : Host) (source : Path) : Except Failure Loaded := do
  let made ← e.compiled h source
  storedBy storage h source made.1 made.2
  match Program.ofCode? made.1.code with
  | some program => return ⟨source, made.1.code, made.1.dependencies, program⟩
  | none => throw (.compile ⟨source, .undecodable⟩)

theorem outcomeBy_eq_ok_iff : e.outcomeBy storage h source = .ok loaded ↔
    e.Stores storage h source ∧ ∃ r k program, e.compileFile h source = .ok r ∧
      e.keyOf h source r.dependencies = .ok k ∧ Program.ofCode? r.code = some program ∧
        loaded = ⟨source, r.code, r.dependencies, program⟩ := by
  unfold outcomeBy
  constructor
  · intro h
    obtain ⟨made, hmade, h⟩ := bind_eq_ok h
    obtain ⟨_, hstored, h⟩ := bind_eq_ok h
    obtain ⟨hr, hk⟩ := compiled_eq_ok_iff.mp hmade
    cases hp : Program.ofCode? made.1.code with
    | none =>
      rw [hp] at h
      cases h
    | some program =>
      rw [hp] at h
      cases h
      refine ⟨fun r k hr' hk' => ?_, made.1, made.2, program, hr, hk, hp, rfl⟩
      obtain rfl : made.1 = r := Except.ok.inj (hr.symm.trans hr')
      obtain rfl : made.2 = k := Except.ok.inj (hk.symm.trans hk')
      exact hstored
  · rintro ⟨hstores, r, k, program, hr, hk, hp, rfl⟩
    have hmade : e.compiled h source = .ok (r, k) := compiled_eq_ok_iff.mpr ⟨hr, hk⟩
    rw [hmade]
    simp only [bind, Except.bind, hstores r k hr hk, hp]
    rfl

theorem Refuses.outcomeBy_eq (hrefuses : e.Refuses storage h source failure) :
    e.outcomeBy storage h source = .error failure := by
  obtain ⟨r, k, hr, hk, hstored⟩ := hrefuses
  have hmade : e.compiled h source = .ok (r, k) := compiled_eq_ok_iff.mpr ⟨hr, hk⟩
  unfold outcomeBy
  rw [hmade]
  simp only [bind, Except.bind, hstored]

-- What a load ends with where there is no entry yet.
theorem finishBy_missing (e : Engine) (storage : Storage) (source : Path) (r : Compile.Compiled)
    (k : Cache.Key) (s : State) : ((e.finishBy storage source k .missing r).run s).1 = (do
      storedBy storage s.host source r k
      match Program.ofCode? r.code with
      | some program => return ⟨source, r.code, r.dependencies, program⟩
      | none => throw (.compile ⟨source, .undecodable⟩)) := by
  unfold finishBy keepBy storedBy
  dsimp only
  rw [run_bind, onFiles_run, run_get_bind]
  cases ((storage k r.code ⟨source, r.dependencies, s.host.clock⟩ r.resolutions).run s.host).1 with
  | error failure => rfl
  | ok _ => cases Program.ofCode? r.code <;> rfl

-- Compiling a source and taking its key change no file.
theorem recompile_unchanged (e : Engine) (source : Path) (hs : s.host = h) :
    Yields (fun t => t.host = h) (e.recompile source) (e.compiled h source) s :=
  recompile_gives (fun _ _ ht => ht) (fun _ ht => congrArg (e.compileFile · source) ht)
    (fun r _ _ ht => congrArg (e.keyOf · source r.dependencies) ht) hs

-- With nothing in the cache a load compiles its source and stores what that gives.
theorem loadBy_of_vacant (storage : Storage) (source : Path) (hv : s.host.Valid)
    (hvacant : e.cache.Vacant s.host) :
    ((e.loadBy storage source).run s).1 = e.outcomeBy storage s.host source := by
  have hcached : Yields (fun t => t.host = s.host) (e.cached? source) (.ok none) s :=
    ⟨s, by rw [cached?_run, index?_of_vacant hvacant], rfl⟩
  have hload : Yields (fun _ => True) (e.loadBy storage source) (e.outcomeBy storage s.host source) s := by
    unfold loadBy maxRetries renewBy outcomeBy
    refine hcached.bind fun t ht => ?_
    have hcount : Yields (fun t => t.host = s.host)
        (count fun c => { c with misses := c.misses + 1 }) (.ok ()) t := ⟨_, count_run _ t, ht⟩
    refine hcount.bind fun t ht => ?_
    have hcompile := recompile_unchanged e source ht
    cases hmade : e.compiled s.host source with
    | error failure =>
      rw [hmade] at hcompile
      obtain ⟨u, hrun, -⟩ := hcompile.bind_error
      exact ⟨u, hrun, trivial⟩
    | ok made =>
      rw [hmade] at hcompile
      refine hcompile.bind fun u hu => Yields.get_bind ?_
      have hplain := keyOf_plain (compiled_eq_ok_iff.mp hmade).2
      have hmissing : e.cache.lookup u.host made.2 = .missing := by
        rw [hu]
        exact Cache.lookup_missing hv hplain (hvacant _ (Cache.owns_meta made.2))
      rw [hmissing]
      -- What storing does to the files does not matter: nothing reads them after it.
      refine ⟨_, Prod.ext ?_ rfl, trivial⟩
      rw [← hu]
      exact finishBy_missing e storage source made.1 made.2 u
  obtain ⟨_, hrun, -⟩ := hload
  rw [hrun]

theorem compileBy_of_vacant (storage : Storage) (hv : s.host.Valid) (hvacant : e.cache.Vacant s.host)
    (hname : e.resolve s.host name = .ok source) :
    ((e.compileBy storage name).run s).1 = e.outcomeBy storage s.host source := by
  unfold compileBy
  rw [run_bind, ask_run, hname]
  exact loadBy_of_vacant storage source hv hvacant

theorem renderBy_run_fst (e : Engine) (storage : Storage) (name : String) (vars : Value) (s : State) :
    ((e.renderBy storage name vars).run s).1 = (do
      let bindings ← bindingsOf vars
      let loaded ← ((e.compileBy storage name).run s).1
      e.run name loaded.program bindings) := by
  unfold renderBy
  rw [run_bind]
  cases bindingsOf vars with
  | error failure => rfl
  | ok bindings =>
    change ((e.compileBy storage name >>= fun loaded =>
      liftExcept (e.run name loaded.program bindings)).run s).1 = _
    rw [run_bind]
    cases (e.compileBy storage name).run s with
    | mk result t =>
      cases result with
      | error failure => rfl
      | ok loaded =>
        dsimp only
        change _ = e.run name loaded.program bindings
        cases e.run name loaded.program bindings <;> rfl

end TemplateEngine.Engine
