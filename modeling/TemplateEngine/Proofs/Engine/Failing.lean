import TemplateEngine.Proofs.Cache.Interruption
import TemplateEngine.Proofs.Engine.Turns

-- Loads that fail. Most fail before anything is written. But what was compiled is kept file by file, and
-- only then read back: files are left where a later one cannot be written, and where the program is
-- nested too deep to be read back.
namespace TemplateEngine

theorem Host.Grows.adds {h h' : Host} (hg : h.Grows h') (new : Location → Location → ByteArray → Prop) :
    h.Adds new h' :=
  ⟨hg.cwd, hg.valid, fun l content changed he => .inl ((hg.file_iff l content changed).mp he)⟩

namespace Cache

variable {c : Cache} {h h' : Host} {files : List (Path × String)} {failure : Failure}

namespace Change

-- Files that are written one after the other, each with its text.
def writes (files : List (Path × String)) : List Change := files.map fun f => .write f.1 f.2

-- The files that come from such writes.
def FileAmong (files : List (Path × String)) (cwd l : Location) (content : ByteArray) : Prop :=
  ∃ f ∈ files, l = FileTree.place cwd f.1 ∧ content = f.2.toUTF8

theorem makeAll_writes_adds (files : List (Path × String)) :
    Keeps (Host.Adds (FileAmong files)) (makeAll (writes files)) := by
  intro h
  refine (makeAll_adds (writes files) h).mono ?_
  rintro l content ⟨change, hchange, hadding⟩
  obtain ⟨f, hf, rfl⟩ := List.mem_map.mp hchange
  exact ⟨f, hf, hadding⟩

-- Files at different places are all there once they were written.
theorem makeAll_writes_ok (hv : h.Valid)
    (hapart : files.Pairwise fun f g => FileTree.place h.cwd f.1 ≠ FileTree.place h.cwd g.1)
    (hrun : (makeAll (writes files)).run h = (.ok (), h')) :
    h'.Valid ∧ h.SameFiles (fun l => ∃ f ∈ files, l = FileTree.place h.cwd f.1) h' ∧
      ∀ f ∈ files, ∃ changed,
        h'.tree.entry? (FileTree.place h.cwd f.1) = some (.file f.2.toUTF8 changed) := by
  induction files generalizing h with
  | nil =>
    obtain rfl := makeAll_nil_ok hrun
    exact ⟨hv, ⟨rfl, fun _ _ _ _ => .rfl⟩, by simp⟩
  | cons f files ih =>
    obtain ⟨hfirst, hapart⟩ := List.pairwise_cons.mp hapart
    obtain ⟨t, hwrite, hrun⟩ := makeAll_cons_ok hrun
    obtain ⟨hvalid, hsame, hfile⟩ := write_made hv hwrite
    rw [← hsame.cwd] at hapart
    obtain ⟨hvalid', hsame', hfiles⟩ := ih hvalid hapart hrun
    rw [hsame.cwd] at hsame' hfiles
    refine ⟨hvalid', ⟨hsame'.cwd.trans hsame.cwd, fun l hl content changed => ?_⟩, ?_⟩
    · simp only [List.mem_cons, exists_eq_or_imp, not_or] at hl
      exact (hsame'.files l hl.2 content changed).trans (hsame.files l hl.1 content changed)
    · rw [List.forall_mem_cons]
      refine ⟨?_, hfiles⟩
      obtain ⟨changed, he⟩ := hfile
      refine ⟨changed, (hsame'.files _ ?_ _ _).mpr he⟩
      rintro ⟨g, hg, hplace⟩
      exact hfirst g hg hplace

theorem make_write_error {p : Path} {content : String} (hv : h.Valid)
    (hrun : (write p content).make.run h = (.error failure, h')) :
    h.Grows h' ∧ ∃ message, failure = .cache "write" p message := by
  constructor
  · cases make_fails hv hrun with
    | write hg => exact hg
  · rw [make_write_run] at hrun
    split at hrun
    · cases hrun
    · next message t hwrite => exact ⟨message, (Except.error.inj (Prod.mk.inj hrun).1).symm⟩

-- Writing stops at the first file that cannot be written. Those before it are there.
theorem makeAll_writes_error (hv : h.Valid)
    (hrun : (makeAll (writes files)).run h = (.error failure, h')) :
    ∃ made f rest t message, files = made ++ f :: rest ∧ (makeAll (writes made)).run h = (.ok (), t) ∧
      t.Grows h' ∧ failure = .cache "write" f.1 message := by
  induction files generalizing h with
  | nil => cases hrun
  | cons f files ih =>
    change (makeAll (write f.1 f.2 :: writes files)).run h = _ at hrun
    rw [makeAll_cons_run] at hrun
    cases hwrite : (write f.1 f.2).make.run h with
    | mk result u =>
      rw [hwrite] at hrun
      cases result with
      | error failure' =>
        cases hrun
        obtain ⟨hg, message, hfailure⟩ := make_write_error hv hwrite
        exact ⟨[], f, files, h, message, rfl, rfl, hg, hfailure⟩
      | ok _ =>
        obtain ⟨made, g, rest, t, message, rfl, hmade, hg, hfailure⟩ := ih (write_made hv hwrite).1 hrun
        refine ⟨f :: made, g, rest, t, message, rfl, ?_, hg, hfailure⟩
        change (makeAll (write f.1 f.2 :: writes made)).run h = _
        rw [makeAll_cons_run, hwrite]
        exact hmade

end Change

end Cache

namespace Engine

open Cache (Change)

variable {e : Engine} {source : Path} {k : Cache.Key} {r : Compile.Compiled} {s s' : State}
  {failure : Failure}

-- The files by which what was compiled is kept, in the order in which they are written.
def filesFor (e : Engine) (source : Path) (k : Cache.Key) (found : Cache.Lookup) (r : Compile.Compiled)
    (now : Instant) : List (Path × String) :=
  let index := (e.cache.indexPath source, Cache.Index.text ⟨source, r.dependencies, r.resolutions⟩)
  match found with
  | .fresh _ _ => [index]
  | .missing | .stale =>
    [(e.cache.codePath k, r.code),
      (e.cache.metaPath k, Cache.Metadata.text ⟨source, r.dependencies, now⟩), index]

theorem filesFor_apart (e : Engine) (source : Path) (hk : k.Plain) (found : Cache.Lookup)
    (r : Compile.Compiled) (now : Instant) (cwd : Location) :
    (e.filesFor source k found r now).Pairwise fun f g =>
      FileTree.place cwd f.1 ≠ FileTree.place cwd g.1 := by
  have hcode : FileTree.place cwd (e.cache.codePath k) = e.cache.codePlace cwd k :=
    Cache.place_codePath_eq e.cache cwd hk
  have hmeta : FileTree.place cwd (e.cache.metaPath k) = e.cache.metaPlace cwd k :=
    Cache.place_metaPath_eq e.cache cwd hk
  have hindex : FileTree.place cwd (e.cache.indexPath source) = e.cache.indexPlace cwd source :=
    Cache.place_indexPath_eq e.cache cwd source
  cases found <;>
    simp [filesFor, hcode, hmeta, hindex, Cache.codePlace_ne_metaPlace, Cache.codePlace_ne_indexPlace,
      Cache.metaPlace_ne_indexPlace]

theorem keep_run (e : Engine) (source : Path) (k : Cache.Key) (found : Cache.Lookup)
    (r : Compile.Compiled) (s : State) :
    (e.keep source k found r).run s =
      (onFiles (Change.makeAll (Change.writes (e.filesFor source k found r s.host.clock)))).run s := by
  have hstored : ∀ now, Change.makeAll (Change.writes (e.filesFor source k .missing r now)) =
      e.cache.store k r.code ⟨source, r.dependencies, now⟩ r.resolutions := fun _ => rfl
  have hindexed : ∀ now code m, Change.makeAll (Change.writes (e.filesFor source k (.fresh code m) r now)) =
      e.cache.writeIndex ⟨source, r.dependencies, r.resolutions⟩ := fun _ _ _ => bind_pure_unit
  unfold keep
  cases found with
  | missing => rw [hstored, onFiles_run, onFiles_run, run_get_bind]
  | stale =>
    have hsame : e.filesFor source k .stale r = e.filesFor source k .missing r := rfl
    rw [hsame, hstored, onFiles_run, onFiles_run, run_get_bind]
  | fresh code m => rw [hindexed]

-- How a load fails once some files were written: because of the next one, or because the program is
-- nested too deep to be read back when all are there.
inductive Botched (source : Path) (r : Compile.Compiled) : List (Path × String) → Failure → Prop where
  | unwritten {f : Path × String} {rest : List (Path × String)} (message : String) :
      Botched source r (f :: rest) (.cache "write" f.1 message)
  | undecodable (hdeep : Json.Document.maxDepth < r.program.encode.depth) :
      Botched source r [] (.compile ⟨source, .undecodable⟩)

-- What was compiled is kept in part, or whole, and nothing else is new.
structure Leaves (e : Engine) (source : Path) (k : Cache.Key) (r : Compile.Compiled) (u : State)
    (failure : Failure) (made rest : List (Path × String)) (h' : Host) : Prop where
  files : e.filesFor source k (e.cache.lookup u.host k) r u.host.clock = made ++ rest
  adds : u.host.Adds (Change.FileAmong made) h'
  left : ∀ f ∈ made, ∃ changed,
    h'.tree.entry? (FileTree.place u.host.cwd f.1) = some (.file f.2.toUTF8 changed)
  failure : Botched source r rest failure

-- Files that were written at different places are left by what fails after them: it makes no more than
-- directories.
theorem leaves_of_made {made : List (Path × String)} {h t h' : Host} (hv : h.Valid)
    (hapart : made.Pairwise fun f g => FileTree.place h.cwd f.1 ≠ FileTree.place h.cwd g.1)
    (hmade : (Change.makeAll (Change.writes made)).run h = (.ok (), t)) (hg : t.Grows h') :
    h.Adds (Change.FileAmong made) h' ∧
      ∀ f ∈ made, ∃ changed,
        h'.tree.entry? (FileTree.place h.cwd f.1) = some (.file f.2.toUTF8 changed) := by
  have hadds := Change.makeAll_writes_adds made h
  rw [hmade] at hadds
  obtain ⟨-, -, hleft⟩ := Change.makeAll_writes_ok hv hapart hmade
  refine ⟨hadds.trans _ _ _ _ (hg.adds _), fun f hf => ?_⟩
  obtain ⟨changed, he⟩ := hleft f hf
  exact ⟨changed, (hg.file_iff _ _ _).mpr he⟩

theorem maxDepth_lt_of_unread (hr : e.compileFile s.host source = .ok r)
    (hcode : Program.ofCode? r.code = none) : Json.Document.maxDepth < r.program.encode.depth := by
  have hread := (Program.ofCode?_code (compileFile_sealedFor hr).sized).2
  have hsame : r.program.code = r.code := rfl
  rw [hsame, hcode] at hread
  by_contra hshallow
  rw [if_pos (Nat.le_of_not_lt hshallow)] at hread
  cases hread

theorem finish_fails (hv : s.host.Valid) (hr : e.compileFile s.host source = .ok r)
    (hk : e.keyOf s.host source r.dependencies = .ok k)
    (hrun : (e.finish source k (e.cache.lookup s.host k) r).run s = (.error failure, s')) :
    ∃ made rest, e.Leaves source k r s failure made rest s'.host := by
  have hplain := keyOf_plain hk
  have hapart := e.filesFor_apart source hplain (e.cache.lookup s.host k) r s.host.clock s.host.cwd
  unfold finish at hrun
  rw [run_bind, keep_run, onFiles_run] at hrun
  generalize hfiles : e.filesFor source k (e.cache.lookup s.host k) r s.host.clock = files at hrun hapart
  cases hwrite : (Change.makeAll (Change.writes files)).run s.host with
  | mk result t =>
    rw [hwrite] at hrun
    cases result with
    | error failure' =>
      cases hrun
      obtain ⟨made, f, rest, u, message, rfl, hmade, hg, rfl⟩ := Change.makeAll_writes_error hv hwrite
      obtain ⟨hadds, hleft⟩ := leaves_of_made hv (List.pairwise_append.mp hapart).1 hmade hg
      exact ⟨made, f :: rest, hfiles, hadds, hleft, .unwritten message⟩
    | ok _ =>
      cases hcode : Program.ofCode? r.code with
      | some program =>
        rw [hcode] at hrun
        cases hrun
      | none =>
        rw [hcode] at hrun
        cases hrun
        obtain ⟨hadds, hleft⟩ := leaves_of_made hv hapart hwrite (.refl t)
        exact ⟨files, [], by rw [hfiles, List.append_nil], hadds, hleft,
          .undecodable (maxDepth_lt_of_unread hr hcode)⟩

-- A file stands where the directory of indexes should be.
def jammed : State := stall [(["c", "index"], .file "".toUTF8 ⟨0, 0⟩)]

def jammedCode : Location :=
  ["c", "d4cb5cdc697aa70ed8e17c87bec300e936df355829ebf7fa70fd5b7c328ce55d.code.json"]

end Engine
end TemplateEngine
