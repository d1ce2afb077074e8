import TemplateEngine.Proofs.Cache.Tidy
import TemplateEngine.Proofs.Engine.Avoid

-- A cache whose files are lost or garbled. Whatever happens to them, a load gives what it gives with an
-- empty cache: what can still be read comes from compilations of the same files.
namespace TemplateEngine

-- Whether content cannot be read as that of the file of a cache at a place.
structure Cache.Garbled (c : Cache) (cwd l : Location) (content : ByteArray) : Prop where
  code : ∀ k text, l = c.codePlace cwd k → content = text.toUTF8 → Program.ofCode? text = none
  metadata : ∀ k text, l = c.metaPlace cwd k → content = text.toUTF8 → Metadata.ofText? text = none
  index : ∀ source text, l = c.indexPlace cwd source → content = text.toUTF8 → Index.ofText? text = none

namespace Engine

variable {e : Engine} {base h : Host} {names : List String} {name : String} {source source' : Path}
  {r r' : Compile.Compiled} {k k' : Cache.Key} {l : Location} {content : ByteArray} {s start : State}

-- A compilation of one of some templates, and its key.
structure Known (e : Engine) (base : Host) (names : List String) (source : Path) (r : Compile.Compiled)
    (k : Cache.Key) : Prop where
  named : ∃ name ∈ names, e.resolve base name = .ok source
  compiled : e.compileFile base source = .ok r
  key : e.keyOf base source r.dependencies = .ok k

-- What a file of the cache may hold: as far as it can be read, what comes from these compilations.
structure May (e : Engine) (base : Host) (names : List String) (l : Location) (content : ByteArray) :
    Prop where
  code : ∀ k text, l = e.cache.codePlace base.cwd k → content = text.toUTF8 →
    (Program.ofCode? text).isSome = true → ∃ source r, e.Known base names source r k ∧ text = r.code
  metadata : ∀ k text m, l = e.cache.metaPlace base.cwd k → content = text.toUTF8 →
    Cache.Metadata.ofText? text = some m →
      ∃ source r, e.Known base names source r k ∧ m.dependencies = r.dependencies
  index : ∀ source text i, l = e.cache.indexPlace base.cwd source → content = text.toUTF8 →
    Cache.Index.ofText? text = some i →
      ∃ r k, e.Known base names i.source r k ∧ i.dependencies = r.dependencies

theorem May.of_garbled (hg : e.cache.Garbled base.cwd l content) : e.May base names l content := by
  refine ⟨fun k text hl ht hp => ?_, fun k text m hl ht hm => ?_, fun source text i hl ht hi => ?_⟩
  · rw [hg.code k text hl ht] at hp
    cases hp
  · rw [hg.metadata k text hl ht] at hm
    cases hm
  · rw [hg.index source text hl ht] at hi
    cases hi

theorem Known.may_code (hk : e.Known base names source r k) :
    e.May base names (e.cache.codePlace base.cwd k) r.code.toUTF8 := by
  refine ⟨fun k' text hl ht _ => ?_, fun k' text m hl => ?_, fun source' text i hl => ?_⟩
  · obtain rfl := Cache.codePlace_inj hl
    exact ⟨source, r, hk, (toUTF8_inj ht).symm⟩
  · exact absurd hl (Cache.codePlace_ne_metaPlace _ _)
  · exact absurd hl (Cache.codePlace_ne_indexPlace _ _)

theorem Known.may_metadata (hk : e.Known base names source r k) (now : Instant) :
    e.May base names (e.cache.metaPlace base.cwd k)
      (Cache.Metadata.text ⟨source, r.dependencies, now⟩).toUTF8 := by
  refine ⟨fun k' text hl => ?_, fun k' text m hl ht hm => ?_, fun source' text i hl => ?_⟩
  · exact absurd hl.symm (Cache.codePlace_ne_metaPlace _ _)
  · obtain rfl := Cache.metaPlace_inj hl
    obtain rfl := toUTF8_inj ht
    exact ⟨source, r, hk, (Cache.Metadata.ofText?_text hm).2⟩
  · exact absurd hl (Cache.metaPlace_ne_indexPlace _ _)

theorem Known.may_index (hk : e.Known base names source r k) :
    e.May base names (e.cache.indexPlace base.cwd source)
      (Cache.Index.text ⟨source, r.dependencies, r.resolutions⟩).toUTF8 := by
  refine ⟨fun k' text hl => ?_, fun k' text m hl => ?_, fun source' text i _ ht hi => ?_⟩
  · exact absurd hl.symm (Cache.codePlace_ne_indexPlace _ _)
  · exact absurd hl.symm (Cache.metaPlace_ne_indexPlace _ _)
  · obtain rfl := toUTF8_inj ht
    rw [Cache.Index.ofText?_text] at hi
    cases hi
    exact ⟨r, k, hk, rfl⟩

-- Templates that are looked for in no place of the cache, with compilations that keys tell apart.
structure Library (e : Engine) (base : Host) (names : List String) : Prop where
  cwd : base.cwd.Proper
  avoids : ∀ name ∈ names, e.Avoids base name
  distinct : ∀ source r source' r' k, e.Known base names source r k → e.Known base names source' r' k →
    source = source'

-- A state in which nothing is wrong that can be read in the cache.
def Honest (e : Engine) (base : Host) (names : List String) (s : State) : Prop :=
  e.cache.Tidy base (e.May base names) s.host

theorem Known.eq_of_source (hk : e.Known base names source r k) (hk' : e.Known base names source r' k') :
    r = r' ∧ k = k' := by
  obtain rfl : r = r' := Except.ok.inj (hk.compiled.symm.trans hk'.compiled)
  exact ⟨rfl, Except.ok.inj (hk.key.symm.trans hk'.key)⟩

theorem index?_eq_some {i : Cache.Index} (hi : e.index? h source = some i) :
    e.cache.index? h source = some i ∧ ∀ q ∈ i.resolutions, q.holds e.settings.compileOptions h = true := by
  unfold Engine.index? at hi
  cases hc : e.cache.index? h source with
  | none =>
    rw [hc] at hi
    cases hi
  | some j =>
    rw [hc] at hi
    change (if _ then some j else none) = some i at hi
    split at hi
    · next hall =>
      cases hi
      exact ⟨rfl, List.all_eq_true.mp hall⟩
    · cases hi

namespace Library

variable (hlib : e.Library base names)

include hlib

theorem eq_of_key (hk : e.Known base names source r k) (hk' : e.Known base names source' r' k) :
    source = source' ∧ r = r' := by
  obtain rfl := hlib.distinct _ _ _ _ _ hk hk'
  exact ⟨rfl, (hk.eq_of_source hk').1⟩

theorem leads (hnamed : ∃ name ∈ names, e.resolve base name = .ok source)
    (hsame : base.SameBut (e.cache.Owns base.cwd) h) : ∃ name, e.Leads base name source h := by
  obtain ⟨name, hname, hresolved⟩ := hnamed
  exact ⟨name, hlib.avoids name hname, hlib.cwd, hresolved, hsame⟩

theorem compileFile (hnamed : ∃ name ∈ names, e.resolve base name = .ok source)
    (hsame : base.SameBut (e.cache.Owns base.cwd) h) : e.compileFile h source = e.compileFile base source := by
  obtain ⟨_, hl⟩ := hlib.leads hnamed hsame
  exact hl.compileFile

theorem keyOf (hk : e.compileFile base source = .ok r)
    (hnamed : ∃ name ∈ names, e.resolve base name = .ok source)
    (hsame : base.SameBut (e.cache.Owns base.cwd) h) :
    e.keyOf h source r.dependencies = e.keyOf base source r.dependencies := by
  obtain ⟨_, hl⟩ := hlib.leads hnamed hsame
  exact hl.keyOf hk

theorem eq_of_same (hnamed : ∃ name ∈ names, e.resolve base name = .ok source)
    (hnamed' : ∃ name ∈ names, e.resolve base name = .ok source') (hsame : source'.same source = true) :
    source' = source := by
  obtain ⟨_, -, hresolved⟩ := hnamed
  obtain ⟨_, -, hresolved'⟩ := hnamed'
  obtain ⟨m, hm, rfl⟩ := resolve_eq_ok hresolved
  obtain ⟨m', hm', rfl⟩ := resolve_eq_ok hresolved'
  have hproper := Compile.locate_proper hlib.cwd hm
  have hproper' := Compile.locate_proper hlib.cwd hm'
  rw [(Location.path_same_iff hproper' hproper).mp hsame]

-- An index that is found is that of a compilation of its source.
theorem known_of_index? (hnamed : ∃ name ∈ names, e.resolve base name = .ok source)
    (ht : e.cache.Tidy base (e.May base names) h) {i : Cache.Index} (hi : e.index? h source = some i) :
    ∃ r k, e.Known base names source r k ∧ i.dependencies = r.dependencies ∧ e.cache.FitsIndex source := by
  obtain ⟨text, hread, hi, hsame⟩ := Cache.index?_eq_some (index?_eq_some hi).1
  obtain ⟨hu, hlong, changed, he⟩ := ht.ready.read_index_iff.mp hread
  rw [ht.same.cwd] at he
  obtain ⟨_, _, hfile, hmay⟩ := ht.files _ _ (Cache.owns_index source) (Cache.indexPlace_ne_indexHome source) he
  cases hfile
  obtain ⟨r, k, hk, hdependencies⟩ := hmay.index source text i rfl rfl hi
  obtain hsource := hlib.eq_of_same hnamed hk.named hsame
  exact ⟨r, k, hsource ▸ hk, hdependencies, hu, hlong⟩

-- An entry that is found fresh is that of the compilation with its key, if its code can be read.
theorem known_of_lookup (ht : e.cache.Tidy base (e.May base names) h) (hk : e.Known base names source r k)
    {code : String} {m : Cache.Metadata} (hl : e.cache.lookup h k = .fresh code m) :
    m.dependencies = r.dependencies ∧ ((Program.ofCode? code).isSome = true → code = r.code) := by
  obtain ⟨⟨text, changed, hmeta, hread⟩, changed', hcode⟩ := Cache.lookup_eq_fresh (keyOf_plain hk.key) hl
  rw [ht.same.cwd] at hmeta hcode
  obtain ⟨_, _, hfile, hmay⟩ := ht.files _ _ (Cache.owns_meta k) (Cache.metaPlace_ne_indexHome k) hmeta
  cases hfile
  obtain ⟨_, _, hcode', hmay'⟩ := ht.files _ _ (Cache.owns_code k) (Cache.codePlace_ne_indexHome k) hcode
  cases hcode'
  constructor
  · obtain ⟨source', r', hk', hdependencies⟩ := hmay.metadata k text m rfl rfl hread
    obtain ⟨-, rfl⟩ := hlib.eq_of_key hk hk'
    exact hdependencies
  · intro hp
    obtain ⟨source', r', hk', hsame⟩ := hmay'.code k code rfl rfl hp
    obtain ⟨-, rfl⟩ := hlib.eq_of_key hk hk'
    exact hsame

end Library

-- What is compiled from a source, and its key.
def compiled (e : Engine) (h : Host) (source : Path) : Except Failure (Compile.Compiled × Cache.Key) := do
  let r ← e.compileFile h source
  return (r, ← e.keyOf h source r.dependencies)

theorem compiled_eq_ok_iff {made : Compile.Compiled × Cache.Key} : e.compiled h source = .ok made ↔
    e.compileFile h source = .ok made.1 ∧ e.keyOf h source made.1.dependencies = .ok made.2 := by
  unfold compiled
  constructor
  · intro h
    obtain ⟨r, hr, h⟩ := bind_eq_ok h
    obtain ⟨k, hk, h⟩ := bind_eq_ok h
    cases h
    exact ⟨hr, hk⟩
  · rintro ⟨hr, hk⟩
    rw [hr]
    change (e.keyOf h source made.1.dependencies >>= _) = _
    rw [hk]
    rfl

-- What a load of a source gives where the cache has nothing for it.
def outcome (e : Engine) (h : Host) (source : Path) : Except Failure Loaded := do
  let r ← e.compileFile h source
  let k ← e.keyOf h source r.dependencies
  e.cache.stored k source
  match Program.ofCode? r.code with
  | some program => return ⟨source, r.code, r.dependencies, program⟩
  | none => throw (.compile ⟨source, .undecodable⟩)

theorem outcome_of_failed {failure : Failure} (hfails : e.compiled h source = .error failure) :
    e.outcome h source = .error failure := by
  unfold outcome
  unfold compiled at hfails
  rcases bind_eq_error hfails with hr | ⟨r, hr, hfails⟩
  · rw [hr]
    rfl
  · rcases bind_eq_error hfails with hk | ⟨k, hk, hfails⟩
    · rw [hr]
      change (e.keyOf h source r.dependencies >>= _) = _
      rw [hk]
      rfl
    · cases hfails

theorem Known.outcome_eq (hk : e.Known base names source r k) :
    e.outcome base source = (do
      e.cache.stored k source
      match Program.ofCode? r.code with
      | some program => return ⟨source, r.code, r.dependencies, program⟩
      | none => throw (.compile ⟨source, .undecodable⟩)) := by
  unfold outcome
  rw [hk.compiled]
  change (e.keyOf base source r.dependencies >>= _) = _
  rw [hk.key]
  rfl

theorem yields_onFiles {α : Type} {P : Host → Prop} {action : Action Failure α} {result : Except Failure α}
    (hrun : Yields P action result s.host) : Yields (fun s => P s.host) (onFiles action) result s := by
  obtain ⟨h, hrun, hp⟩ := hrun
  refine ⟨{ s with host := h }, ?_, hp⟩
  rw [onFiles_run, hrun]

theorem yields_count (hs : e.Honest base names s) (f : Counters → Counters) :
    Yields (e.Honest base names) (count f) (.ok ()) s := ⟨_, count_run f s, hs⟩

theorem yields_ask {α : Type} {P : State → Prop} (hs : P s) (f : Host → Except Failure α) :
    Yields P (ask f) (f s.host) s := ⟨s, ask_run f s, hs⟩

-- An entry that is there can be removed.
theorem evict_yields (hs : e.Honest base names s) (hk : k.Plain) (hl : e.cache.lookup s.host k ≠ .missing) :
    Yields (e.Honest base names) (e.evict k) (.ok ()) s := by
  have hremove := Cache.Tidy.remove hs hk (Cache.fits_of_lookup hs.ready hk hl)
  exact (yields_onFiles hremove).bind fun t ht => yields_count ht _

theorem keep_yields (hs : e.Honest base names s) (hk : e.Known base names source r k) :
    Yields (e.Honest base names) (e.keep source k (e.cache.lookup s.host k) r) (e.cache.stored k source) s := by
  have hplain := keyOf_plain hk.key
  have hstore : Yields (e.cache.Tidy base (e.May base names))
      (e.cache.store k r.code ⟨source, r.dependencies, s.host.clock⟩ r.resolutions)
      (e.cache.stored k source) s.host :=
    Cache.Tidy.store hs hplain hk.may_code (hk.may_metadata s.host.clock) hk.may_index
  have hnow : Yields (e.cache.Tidy base (e.May base names)) (do
      e.cache.store k r.code ⟨source, r.dependencies, (← get).clock⟩ r.resolutions)
      (e.cache.stored k source) s.host :=
    .get_bind (f := fun h => e.cache.store k r.code ⟨source, r.dependencies, h.clock⟩ r.resolutions) hstore
  unfold keep
  cases hl : e.cache.lookup s.host k with
  | missing => exact yields_onFiles hnow
  | stale => exact yields_onFiles hnow
  | fresh code m =>
    have hfits : e.cache.Fits (k.digits ++ Cache.codeSuffix) :=
      Cache.fits_of_lookup hs.ready hplain (by rw [hl]; nofun)
    have hindex := Cache.Tidy.write_index hs (hfits.usable_indexDir hplain) hk.may_index
    unfold Cache.stored
    rw [if_pos hfits]
    exact yields_onFiles hindex

theorem finish_yields (hs : e.Honest base names s) (hk : e.Known base names source r k) :
    Yields (e.Honest base names) (e.finish source k (e.cache.lookup s.host k) r) (e.outcome base source) s := by
  have hkeep := keep_yields hs hk
  rw [hk.outcome_eq]
  unfold finish
  cases hstored : e.cache.stored k source with
  | error failure =>
    rw [hstored] at hkeep
    exact hkeep.bind_error
  | ok _ =>
    rw [hstored] at hkeep
    refine hkeep.bind fun t ht => ?_
    cases Program.ofCode? r.code with
    | none => exact ⟨t, rfl, ht⟩
    | some program => exact .pure ht _

-- A compilation gives what it gives on the first files, as long as compilations and keys do.
theorem recompile_gives {I : State → Prop}
    (hcounts : ∀ (t : State) (f : Counters → Counters), I t → I { t with counters := f t.counters })
    (hcompile : ∀ t, I t → e.compileFile t.host source = e.compileFile base source)
    (hkey : ∀ r t, e.compileFile base source = .ok r → I t →
      e.keyOf t.host source r.dependencies = e.keyOf base source r.dependencies) (hs : I s) :
    Yields I (e.recompile source) (e.compiled base source) s := by
  have hask : Yields I (ask (e.compileFile · source)) (e.compileFile base source) s :=
    hcompile s hs ▸ yields_ask hs (e.compileFile · source)
  have hcount : ∀ (t : State) f, I t → Yields I (count f) (.ok ()) t :=
    fun t f ht => ⟨_, count_run f t, hcounts t f ht⟩
  unfold recompile compiled
  cases hr : e.compileFile base source with
  | error failure =>
    rw [hr] at hask
    exact hask.bind_error
  | ok r =>
    rw [hr] at hask
    refine hask.bind fun t ht => (hcount t _ ht).bind fun t ht => ?_
    have hkeys : Yields I (ask (e.keyOf · source r.dependencies)) (e.keyOf base source r.dependencies) t :=
      hkey r t hr ht ▸ yields_ask ht (e.keyOf · source r.dependencies)
    change Yields I _ (e.keyOf base source r.dependencies >>= fun k => .ok (r, k)) t
    cases hk : e.keyOf base source r.dependencies with
    | error failure =>
      rw [hk] at hkeys
      exact hkeys.bind_error
    | ok k =>
      rw [hk] at hkeys
      exact hkeys.bind fun t ht => .pure ht _

section Library

variable (hlib : e.Library base names) (hnamed : ∃ name ∈ names, e.resolve base name = .ok source)

include hlib hnamed

-- What follows a compilation that goes well decides what a load gives.
theorem recompile_bind_yields {next : Compile.Compiled × Cache.Key → Work Loaded} (hs : e.Honest base names s)
    (hnext : ∀ r k t, e.Known base names source r k → e.Honest base names t →
      Yields (e.Honest base names) (next (r, k)) (e.outcome base source) t) :
    Yields (e.Honest base names) (e.recompile source >>= next) (e.outcome base source) s := by
  have hcompile := recompile_gives (I := e.Honest base names) (fun _ _ ht => ht)
    (fun t ht => hlib.compileFile hnamed ht.same) (fun r t hr ht => hlib.keyOf hr hnamed ht.same) hs
  cases hmade : e.compiled base source with
  | error failure =>
    rw [hmade] at hcompile
    rw [outcome_of_failed hmade]
    exact hcompile.bind_error
  | ok made =>
    obtain ⟨hr, hk⟩ := compiled_eq_ok_iff.mp hmade
    rw [hmade] at hcompile
    exact hcompile.bind fun t ht => hnext made.1 made.2 t ⟨hnamed, hr, hk⟩ ht

theorem renew_yields (retries : Nat) (hs : e.Honest base names s) :
    Yields (e.Honest base names) (e.renew source retries) (e.outcome base source) s := by
  induction retries generalizing s with
  | zero =>
    unfold renew
    exact recompile_bind_yields hlib hnamed hs fun r k t hk ht => (finish_yields ht hk).get_bind
  | succ retries ih =>
    unfold renew
    refine recompile_bind_yields hlib hnamed hs fun r k t hk ht => ?_
    have hfinish := finish_yields ht hk
    dsimp only
    refine Yields.get_bind ?_
    cases hl : e.cache.lookup t.host k with
    | stale =>
      have hevict := evict_yields ht (keyOf_plain hk.key) (by simp [hl])
      exact hevict.bind fun u hu => ih hu
    | missing =>
      rw [hl] at hfinish
      exact hfinish
    | fresh code m =>
      rw [hl] at hfinish
      exact hfinish

-- What the cache answers is what a compilation gives.
theorem cached?_yields (hs : e.Honest base names s) :
    (∃ loaded, Yields (e.Honest base names) (e.cached? source) (.ok (some loaded)) s ∧
        e.outcome base source = .ok loaded) ∨
      Yields (e.Honest base names) (e.cached? source) (.ok none) s := by
  have hevict : ∀ k, k.Plain → e.cache.lookup s.host k ≠ .missing →
      Yields (e.Honest base names) (e.evict k >>= fun _ => pure (none : Option Loaded)) (.ok none) s :=
    fun k hk hl => (evict_yields hs hk hl).bind fun t ht => .pure ht _
  cases hi : e.index? s.host source with
  | none => exact .inr ⟨s, by rw [cached?_run, hi], hs⟩
  | some i =>
    obtain ⟨r, k, hk, hdependencies, hfitsIndex⟩ := hlib.known_of_index? hnamed hs hi
    have hplain := keyOf_plain hk.key
    have hkey : e.keyOf s.host source i.dependencies = .ok k := by
      rw [hdependencies, hlib.keyOf hk.compiled hnamed hs.same, hk.key]
    have hanswer : ∀ found, Yields (e.Honest base names) (e.answer source k (e.cache.lookup s.host k)) found s →
        Yields (e.Honest base names) (e.cached? source) found s := by
      rintro found ⟨t, hrun, ht⟩
      refine ⟨t, ?_, ht⟩
      rw [cached?_run, hi]
      dsimp only
      rw [hkey]
      exact hrun
    cases hl : e.cache.lookup s.host k with
    | missing =>
      rw [hl] at hanswer
      exact .inr (hanswer _ (.pure hs none))
    | stale =>
      rw [hl] at hanswer
      exact .inr (hanswer _ (hevict k hplain (by rw [hl]; nofun)))
    | fresh code m =>
      rw [hl, answer] at hanswer
      obtain ⟨hnoted, hcode⟩ := hlib.known_of_lookup hs hk hl
      cases hp : Program.ofCode? code with
      | none =>
        rw [hp] at hanswer
        exact .inr (hanswer _ (hevict k hplain (by rw [hl]; nofun)))
      | some program =>
        rw [hp] at hanswer
        obtain rfl := hcode (by rw [hp]; rfl)
        have hfits : e.cache.Fits (k.digits ++ Cache.codeSuffix) :=
          Cache.fits_of_lookup hs.ready hplain (by rw [hl]; nofun)
        refine .inl ⟨⟨source, r.code, m.dependencies, program⟩, hanswer _ ?_, ?_⟩
        · exact (yields_count hs _).bind fun t ht => .pure ht _
        · rw [hk.outcome_eq, Cache.stored, if_pos hfits, if_pos hfitsIndex, hp, hnoted]
          rfl

theorem load_yields (hs : e.Honest base names s) :
    Yields (e.Honest base names) (e.load source) (e.outcome base source) s := by
  unfold load
  rcases cached?_yields hlib hnamed hs with ⟨loaded, hfound, heq⟩ | hnone
  · rw [heq]
    exact hfound.bind fun t ht => .pure ht loaded
  · refine hnone.bind fun t ht => (yields_count ht _).bind fun t ht => ?_
    exact renew_yields hlib hnamed maxRetries ht

end Library

-- Whatever the cache holds that is not wrong, a compilation gives what it gives without it.
theorem compile_yields (hlib : e.Library base names) (hname : name ∈ names) (hs : e.Honest base names s) :
    Yields (e.Honest base names) (e.compile name) (e.resolve base name >>= e.outcome base) s := by
  have hsame : e.resolve s.host name = e.resolve base name :=
    resolve_of_sameBut hs.same (hlib.avoids name hname)
  have hask : Yields (e.Honest base names) (ask (e.resolve · name)) (e.resolve base name) s :=
    hsame ▸ yields_ask hs (e.resolve · name)
  unfold compile
  cases hr : e.resolve base name with
  | error failure =>
    rw [hr] at hask
    exact hask.bind_error
  | ok source =>
    rw [hr] at hask
    exact hask.bind fun t ht => load_yields hlib ⟨name, hname, hr⟩ ht

-- The states that are reached while templates are loaded and files of the cache are lost or garbled, in
-- any order.
inductive Worn (e : Engine) (names : List String) (start : State) : State → Prop
  | start : Worn e names start start
  | compile {s : State} {name : String} (hs : Worn e names start s) (hname : name ∈ names) :
    Worn e names start ((e.compile name).run s).2
  | tick {s : State} (hs : Worn e names start s) (now : Instant) : Worn e names start (s.tick now)
  | lose {s : State} {l : Location} {content : ByteArray} {changed : Instant} (hs : Worn e names start s)
    (hl : e.cache.Owns s.host.cwd l) (he : s.host.tree.entry? l = some (.file content changed)) :
    Worn e names start { s with host := s.host.without l }
  | spoil {s : State} {l : Location} {content content' : ByteArray} {changed : Instant}
    (hs : Worn e names start s) (hl : e.cache.Owns s.host.cwd l)
    (he : s.host.tree.entry? l = some (.file content changed))
    (hgarbled : e.cache.Garbled s.host.cwd l content') :
    Worn e names start { s with host := s.host.put l content' }

theorem Worn.honest (hlib : e.Library start.host names) (hstart : e.Honest start.host names start)
    (hs : e.Worn names start s) : e.Honest start.host names s := by
  induction hs with
  | start => exact hstart
  | compile hs hname ih =>
    obtain ⟨t, hrun, ht⟩ := compile_yields hlib hname ih
    rw [hrun]
    exact ht
  | tick hs now ih => exact Cache.Tidy.tick ih now
  | lose hs hl he ih => exact Cache.Tidy.lose ih (ih.same.cwd ▸ hl) he
  | @spoil s l content content' changed hs hl he hgarbled ih =>
    rw [ih.same.cwd] at hl hgarbled
    refine Cache.Tidy.spoil ih hl ?_ he (.of_garbled hgarbled)
    rintro rfl
    cases ih.home _ he

theorem index?_of_vacant (hvacant : e.cache.Vacant h) (source : Path) : e.index? h source = none := by
  cases hi : e.index? h source with
  | none => rfl
  | some i =>
    obtain ⟨text, hread, -⟩ := Cache.index?_eq_some (index?_eq_some hi).1
    obtain ⟨changed, he⟩ := Host.read_eq_ok hread
    rw [Cache.place_indexPath_eq, hvacant _ (Cache.owns_index source)] at he
    cases he

-- A load that finds an empty cache takes the digest of what it compiled, and of nothing else.
theorem Known.mem_materials (hvacant : e.cache.Vacant start.host)
    (hk : e.Known start.host names source r k) : ∃ name ∈ names, ∃ files,
      (source :: r.dependencies).mapM (Cache.stamped start.host) = .ok files ∧
        k = .ofFiles e.settings.salt files ∧
        Cache.Key.material e.settings.salt files ∈ e.materials start name := by
  obtain ⟨⟨name, hname, hresolved⟩, hr, hkey⟩ := hk
  obtain ⟨files, hfiles, rfl⟩ := Cache.keyOf_eq_ok hkey
  have hcached : (e.cached? source).run start = (.ok none, start) := by
    rw [cached?_run, index?_of_vacant hvacant]
  refine ⟨name, hname, files, hfiles, rfl, ?_⟩
  unfold materials
  rw [hresolved]
  dsimp only
  rw [hcached]
  dsimp only
  rw [hr]
  exact List.mem_append_right _ (mem_materialOf hfiles)

-- While templates are loaded on unchanged files, files of the cache are lost, and others are replaced
-- with what cannot be read. Every load gives what it gives with an empty cache.
theorem compile_heals (e : Engine) (start s : State) (names : List String) (name : String)
    (hv : start.host.Valid) (ho : e.cache.Open start.host) (hvacant : e.cache.Vacant start.host)
    (ha : ∀ n ∈ names, e.Avoids start.host n)
    (hdistinct : ∀ n ∈ names, ∀ n' ∈ names, ∀ m ∈ e.materials start n, ∀ m' ∈ e.materials start n',
      Cache.digest m = Cache.digest m' → m = m')
    (hs : e.Worn names start s) (hname : name ∈ names) :
    ((e.compile name).run s).1 = ((e.compile name).run start).1 := by
  have hready : e.cache.Ready start.host := ho.ready hv
  have hlib : e.Library start.host names := by
    refine ⟨hv.cwd, ha, fun source r source' r' k hk hk' => ?_⟩
    obtain ⟨n, hn, files, hfiles, rfl, hmem⟩ := hk.mem_materials hvacant
    obtain ⟨n', hn', files', hfiles', hkeys, hmem'⟩ := hk'.mem_materials hvacant
    have hmaterial := hdistinct n hn n' hn' _ hmem _ hmem' (congrArg Cache.Key.digits hkeys)
    exact (List.cons.inj (Cache.same_of_material_eq hfiles hfiles' hmaterial).1).1
  have hstart : e.Honest start.host names start := hready.tidy hvacant
  obtain ⟨_, hrun, -⟩ := compile_yields hlib hname hstart
  obtain ⟨_, hrun', -⟩ := compile_yields hlib hname (hs.honest hlib hstart)
  rw [hrun, hrun']

theorem stall_avoids : stallEngine.Avoids (stall []).host "p" :=
  avoids_of_compileFile (l := ["p"]) (by decide) (by decide) (by decide) (by decide +kernel)

def stallKey : Cache.Key := ⟨"d4cb5cdc697aa70ed8e17c87bec300e936df355829ebf7fa70fd5b7c328ce55d"⟩

def stallLoaded : State := ((stallEngine.compile "p").run (stall [])).2

theorem stallLoaded_stored : ((stallEngine.compile "p").run (stall [])).1.toBool = true ∧
    stallEngine.materials (stall []) "p" = ["v1;auto_escape=true;ext=;dir=\n/p\x001\n/n\x002\n"] ∧
    (stallLoaded.host.tree.entry? (stallEngine.cache.codePlace [] stallKey)).any (·.isFile) = true ∧
    stallLoaded.host.cwd = [] := by
  decide +kernel

theorem stall_garbled :
    stallEngine.cache.Garbled [] (stallEngine.cache.codePlace [] stallKey) "?".toUTF8 := by
  refine ⟨fun k text _ ht => ?_, fun k text hl => ?_, fun source text hl => ?_⟩
  · obtain rfl := toUTF8_inj ht
    decide +kernel
  · exact absurd hl (Cache.codePlace_ne_metaPlace _ _)
  · exact absurd hl (Cache.codePlace_ne_indexPlace _ _)

-- The code of a page is garbled after it was loaded.
theorem compile_heals_stall : ∃ s, stallEngine.Worn ["p"] (stall []) s ∧
    s.host.tree.entry? (stallEngine.cache.codePlace [] stallKey) = some (.file "?".toUTF8 s.host.clock) ∧
    ((stallEngine.compile "p").run s).1 = ((stallEngine.compile "p").run (stall [])).1 ∧
    ((stallEngine.compile "p").run (stall [])).1.toBool = true := by
  obtain ⟨hok, hmaterials, hstored, hcwd⟩ := stallLoaded_stored
  have hloaded : stallEngine.Worn ["p"] (stall []) stallLoaded := .compile .start (List.mem_singleton_self _)
  cases he : stallLoaded.host.tree.entry? (stallEngine.cache.codePlace [] stallKey) with
  | none =>
    rw [he] at hstored
    cases hstored
  | some entry =>
    rw [he] at hstored
    cases entry with
    | directory changed => cases hstored
    | file content changed =>
      have howns : stallEngine.cache.Owns stallLoaded.host.cwd (stallEngine.cache.codePlace [] stallKey) := by
        rw [hcwd]
        exact Cache.owns_code stallKey
      have hgarbled : stallEngine.cache.Garbled stallLoaded.host.cwd
          (stallEngine.cache.codePlace [] stallKey) "?".toUTF8 := by
        rw [hcwd]
        exact stall_garbled
      have hworn := hloaded.spoil howns he hgarbled
      refine ⟨_, hworn, ?_, ?_, hok⟩
      · rw [Host.put_entry?, if_pos rfl]
        rfl
      · refine compile_heals stallEngine (stall []) _ ["p"] "p" ⟨.of_entries (by decide), by decide⟩ (by decide)
          (Cache.vacant_of_entries (by decide)) ?_ ?_ hworn (List.mem_singleton_self _)
        · intro n hn
          rw [List.mem_singleton.mp hn]
          exact stall_avoids
        · intro n hn n' hn' m hm m' hm' _
          rw [List.mem_singleton.mp hn, hmaterials, List.mem_singleton] at hm
          rw [List.mem_singleton.mp hn', hmaterials, List.mem_singleton] at hm'
          rw [hm, hm']

end Engine

end TemplateEngine
