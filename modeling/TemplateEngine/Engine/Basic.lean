import TemplateEngine.Cache.Store
import TemplateEngine.Compile.Link
import TemplateEngine.Settings.Basic

-- An engine finds templates by name and compiles them, unless the cache has them already.
namespace TemplateEngine

-- How often templates were compiled, found in the cache or not, and how many entries were stale.
structure Counters where
  compiles : Nat
  hits : Nat
  misses : Nat
  stale : Nat
deriving DecidableEq, Repr

namespace Counters

def zero : Counters := ⟨0, 0, 0, 0⟩

def hitRate (c : Counters) : Float :=
  if c.hits + c.misses = 0 then 0.0
  else c.hits.toFloat / (c.hits + c.misses).toFloat * 100.0

end Counters

structure Engine where
  settings : Settings
  registry : Registry
  cache : Cache

structure Loaded where
  source : Path
  code : String
  dependencies : List Path
  program : Program

namespace Engine

structure State where
  host : Host
  counters : Counters

abbrev Work := ExceptT Failure (StateM State)

def onFiles {α : Type} (action : Action Failure α) : Work α :=
  ExceptT.mk fun s =>
    let (result, host) := action.run s.host
    (result, { s with host })

def count (f : Counters → Counters) : Work Unit := modify fun s => { s with counters := f s.counters }

def ask {α : Type} (f : Host → Except Failure α) : Work α := do liftExcept (f (← get).host)

-- An engine with an empty record of what it did. Its cache is created if need be.
def create (settings : Settings) (registry : Registry) : Action Failure Engine := do
  if Settings.extensionFits settings.extension then
    return ⟨settings, registry, ← Cache.create settings.cacheDir⟩
  else
    throw (.settings
      s!"extension '{settings.extension}' must not start with '.' or contain path separators")

def compiler (e : Engine) : Compile.Compiler := ⟨e.registry, e.settings.compileOptions⟩

def resolve (e : Engine) (h : Host) (name : String) : Except Failure Path :=
  match Compile.locate e.settings.compileOptions h name none with
  | .ok l => .ok l.path
  | .error searched => .error (.templateNotFound name searched)

def keyOf (e : Engine) (h : Host) (source : Path) (dependencies : List Path) : Except Failure Cache.Key :=
  Cache.keyOf h source dependencies e.settings.salt

-- The index of a source if all names in it still lead to the same files.
def index? (e : Engine) (h : Host) (source : Path) : Option Cache.Index := do
  let i ← e.cache.index? h source
  if i.resolutions.all (·.holds e.settings.compileOptions h) then return i else none

def evict (e : Engine) (key : Cache.Key) : Work Unit := do
  onFiles (e.cache.remove key)
  count fun c => { c with stale := c.stale + 1 }

-- The program of a source as the cache has it, found by the index. Entries that are no longer
-- good are removed.
def cached? (e : Engine) (source : Path) : Work (Option Loaded) := do
  match e.index? (← get).host source with
  | none => return none
  | some i =>
    let key ← ask (e.keyOf · source i.dependencies)
    match e.cache.lookup (← get).host key with
    | .missing => return none
    | .stale =>
      e.evict key
      return none
    | .fresh code metadata =>
      match Program.ofCode? code with
      | some program =>
        count fun c => { c with hits := c.hits + 1 }
        return some ⟨source, code, metadata.dependencies, program⟩
      | none =>
        e.evict key
        return none

def compileFile (e : Engine) (h : Host) (source : Path) : Except Failure Compile.Compiled := do
  match h.read source with
  | .error fault => throw (.compile ⟨source, .unreadable source fault.message⟩)
  | .ok text => (Compile.compile e.compiler h text source).mapError .compile

-- Puts what was compiled into the cache. Where a good entry is already there, only the index is new.
def keep (e : Engine) (source : Path) (key : Cache.Key) (found : Cache.Lookup) (c : Compile.Compiled) :
    Work Unit :=
  match found with
  | .fresh _ _ => onFiles (e.cache.writeIndex ⟨source, c.dependencies, c.resolutions⟩)
  | .missing | .stale => onFiles do
    e.cache.store key c.code ⟨source, c.dependencies, (← get).clock⟩ c.resolutions

def recompile (e : Engine) (source : Path) : Work (Compile.Compiled × Cache.Key) := do
  let compiled ← ask (e.compileFile · source)
  count fun c => { c with compiles := c.compiles + 1 }
  return (compiled, ← ask (e.keyOf · source compiled.dependencies))

def finish (e : Engine) (source : Path) (key : Cache.Key) (found : Cache.Lookup) (c : Compile.Compiled) :
    Work Loaded := do
  e.keep source key found c
  match Program.ofCode? c.code with
  | some program => return ⟨source, c.code, c.dependencies, program⟩
  | none => throw (.compile ⟨source, .undecodable⟩)

-- Compiles a source and caches the result. A stale entry in its place is removed and the source
-- compiled again, at most `retries` times; then the entry is replaced.
def renew (e : Engine) (source : Path) : (retries : Nat) → Work Loaded
  | 0 => do
    let (compiled, key) ← e.recompile source
    e.finish source key (e.cache.lookup (← get).host key) compiled
  | retries + 1 => do
    let (compiled, key) ← e.recompile source
    match e.cache.lookup (← get).host key with
    | .stale => do
      e.evict key
      e.renew source retries
    | found => e.finish source key found compiled

def maxRetries : Nat := 1

def load (e : Engine) (source : Path) : Work Loaded := do
  match ← e.cached? source with
  | some loaded => return loaded
  | none =>
    count fun c => { c with misses := c.misses + 1 }
    e.renew source maxRetries

def compile (e : Engine) (name : String) : Work Loaded := do e.load (← ask (e.resolve · name))

end Engine

end TemplateEngine
