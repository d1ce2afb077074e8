import TemplateEngine.Proofs.Compile.Inline
import TemplateEngine.Proofs.Cache.Room
import TemplateEngine.Proofs.Engine.Storing

-- A template rendered by its name and its text rendered inline. With nothing in the cache, rendering by
-- name compiles the file, stores what it gives and renders that; so all that sets the two apart is
-- whether it can be stored.
namespace TemplateEngine

-- Whether a program runs to its end, and what it writes, does not depend on what it is called.
theorem Render.render_eq_ok_iff {rules : Rules} {template : String} {p : Program} {bindings : Bindings}
    {out : String} (other : String) :
    render rules template p bindings = .ok out ↔ render rules other p bindings = .ok out := by
  unfold render
  split
  · exact ⟨nofun, nofun⟩
  · cases (runAll rules p.nodes).run ⟨"", [bindings], []⟩ with
    | mk result m => cases result <;> simp

namespace Engine

variable {e : Engine} {storage : Storage} {h : Host} {s : State} {source : Path} {name text : String}
  {dir : Location} {dependencies : List Path} {program : Program} {vars : Value} {out : String}
  {r : Compile.Compiled} {k : Cache.Key}

theorem run_eq_ok_iff (other : String) {bindings : Bindings} :
    e.run name program bindings = .ok out ↔ e.run other program bindings = .ok out := by
  unfold run
  rw [mapError_eq_ok, mapError_eq_ok]
  exact Render.render_eq_ok_iff other

-- The outcomes of a rendering are those of its program.
theorem renderBy_eq_ok_iff : ((e.renderBy storage name vars).run s).1 = .ok out ↔
    ∃ bindings loaded, bindingsOf vars = .ok bindings ∧
      ((e.compileBy storage name).run s).1 = .ok loaded ∧ e.run name loaded.program bindings = .ok out := by
  rw [renderBy_run_fst]
  constructor
  · intro h
    obtain ⟨bindings, hb, h⟩ := bind_eq_ok h
    obtain ⟨loaded, hl, h⟩ := bind_eq_ok h
    exact ⟨bindings, loaded, hb, hl, h⟩
  · rintro ⟨bindings, loaded, hb, hl, h⟩
    rw [hb, hl]
    exact h

theorem renderText_eq_ok_iff : e.renderText h text vars = .ok out ↔
    ∃ bindings r program, bindingsOf vars = .ok bindings ∧
      Compile.compile e.compiler h text none = .ok r ∧ Program.ofCode? r.code = some program ∧
      e.run "<inline>" program bindings = .ok out := by
  unfold renderText
  constructor
  · intro hout
    obtain ⟨bindings, hb, hout⟩ := bind_eq_ok hout
    obtain ⟨r, hr, hout⟩ := bind_eq_ok hout
    cases hp : Program.ofCode? r.code with
    | none =>
      rw [hp] at hout
      cases hout
    | some program =>
      rw [hp] at hout
      exact ⟨bindings, r, program, hb, mapError_eq_ok.mp hr, hp, hout⟩
  · rintro ⟨bindings, r, program, hb, hr, hp, hout⟩
    rw [hb, hr]
    simp only [Except.mapError, bind, Except.bind, hp, hout]

theorem exists_stamped {p : Path} {l : Location} (hr : h.resolve p = .ok l) :
    ∃ file, Cache.stamped h p = .ok file := by
  refine ⟨⟨p, ((h.tree.entry? l).getD (.directory h.clock)).changed⟩, ?_⟩
  unfold Cache.stamped Host.changed
  rw [Host.entryAt_eq hr]
  rfl

-- Files that are found have a key.
theorem exists_keyOf (e : Engine) (hfound : ∀ p ∈ source :: dependencies, ∃ l, h.resolve p = .ok l) :
    ∃ k, e.keyOf h source dependencies = .ok k := by
  have hstamped : ∀ ps : List Path, (∀ p ∈ ps, ∃ l, h.resolve p = .ok l) →
      ∃ files, ps.mapM (Cache.stamped h) = .ok files := by
    intro ps hps
    induction ps with
    | nil => exact ⟨[], rfl⟩
    | cons p ps ih =>
      obtain ⟨⟨l, hl⟩, hps⟩ := List.forall_mem_cons.mp hps
      obtain ⟨file, hfile⟩ := exists_stamped hl
      obtain ⟨files, hfiles⟩ := ih hps
      refine ⟨file :: files, ?_⟩
      rw [List.mapM_cons, hfile, hfiles]
      rfl
  obtain ⟨files, hfiles⟩ := hstamped _ hfound
  refine ⟨.ofFiles e.settings.salt files, ?_⟩
  unfold keyOf Cache.keyOf
  rw [hfiles]
  rfl

-- Where its directory is in order and empty, the cache itself stores what it has room for.
theorem storedBy_store_iff (hready : e.cache.Ready h) (hvacant : e.cache.Vacant h)
    (hk : e.keyOf h source dependencies = .ok k) :
    storedBy e.cache.store h source r k = .ok () ↔ e.cache.Roomy := by
  obtain ⟨files, -, rfl⟩ := Cache.keyOf_eq_ok hk
  exact hready.store_eq_ok_iff hvacant (keyOf_plain hk) (Cache.utf8ByteSize_digest _)

section Inline

variable {file : String} (hv : h.Valid) (hdir : e.settings.templateDir = dir.path)
  (hname : e.resolve h name = .ok (Location.path (dir ++ [file])))
  (htext : h.textAt (dir ++ [file]) = .ok text)

include hv htext in
theorem proper_of_textAt : Location.Proper (dir ++ [file]) := by
  obtain ⟨changed, he⟩ := Host.textAt_eq_ok htext
  exact hv.tree.proper _ _ he

include hdir in
theorem isAbsolute_templateDir : e.compiler.options.templateDir.isAbsolute = true := by
  change e.settings.templateDir.isAbsolute = true
  rw [hdir]
  exact Location.isAbsolute_path dir

include hv hdir hname htext

theorem resolve_source : h.resolve (Location.path (dir ++ [file])) = .ok (dir ++ [file]) := by
  obtain ⟨l, hl, hpath⟩ := resolve_eq_ok hname
  obtain rfl : dir ++ [file] = l := Location.parts_inj (proper_of_textAt hv htext)
    (Compile.locate_proper hv.cwd hl) (congrArg Path.parts hpath)
  exact Compile.resolve_located hv (isAbsolute_templateDir hdir) (by nofun) hl

theorem compileFile_source_iff {r : Compile.Compiled} :
    e.compileFile h (Location.path (dir ++ [file])) = .ok r ↔
      Compile.compile e.compiler h text (some (Location.path (dir ++ [file]))) = .ok r := by
  have hread : h.read (Location.path (dir ++ [file])) = .ok text := by
    unfold Host.read
    rw [resolve_source hv hdir hname htext]
    exact htext
  rw [compileFile_eq_ok, hread]
  simp

-- All that a file of the template directory depends on is found again.
theorem resolve_dependency {r : Compile.Compiled}
    (hr : Compile.compile e.compiler h text (some (Location.path (dir ++ [file]))) = .ok r) :
    ∀ p ∈ Location.path (dir ++ [file]) :: r.dependencies, ∃ l, h.resolve p = .ok l := by
  have horigin : ∀ l ∈ some (dir ++ [file]), Location.Proper l :=
    fun _ => (proper_of_textAt hv htext).of_mem_some
  intro p hp
  rcases List.mem_cons.mp hp with rfl | hp
  · exact ⟨_, resolve_source hv hdir hname htext⟩
  · obtain ⟨b, other, l, hb, ⟨-, hl⟩, rfl, -⟩ :=
      Compile.dependencies_noted (some (dir ++ [file])) hv.cwd horigin hr hp
    have hcanonical := (Compile.canonical_of_proper horigin).of_reaches hv.cwd hb
    exact ⟨l, Compile.resolve_located hv (isAbsolute_templateDir hdir) hcanonical hl⟩

end Inline

-- With nothing in the cache, a template is loaded if its text compiles and the result can be stored.
theorem compileBy_iff_inline {file : String} (storage : Storage) (hv : s.host.Valid)
    (hvacant : e.cache.Vacant s.host) (hdir : e.settings.templateDir = dir.path)
    (hname : e.resolve s.host name = .ok (Location.path (dir ++ [file])))
    (htext : s.host.textAt (dir ++ [file]) = .ok text) (program : Program) :
    (∃ loaded, ((e.compileBy storage name).run s).1 = .ok loaded ∧ loaded.program = program) ↔
      e.Stores storage s.host (Location.path (dir ++ [file])) ∧
        ∃ r, Compile.compile e.compiler s.host text none = .ok r ∧ Program.ofCode? r.code = some program := by
  have hproper := proper_of_textAt hv htext
  have htwins : Compile.Twins e.compiler s.host ⟨text, some (Location.path (dir ++ [file]))⟩
      ⟨text, none⟩ :=
    Compile.twins_inline hdir (fun n hn => hproper n (by simp [hn])) (hproper file (by simp)) text
  have hinline := Compile.compile_inline hv.cwd hproper htext htwins
  rw [compileBy_of_vacant storage hv hvacant hname]
  constructor
  · rintro ⟨loaded, hloaded, rfl⟩
    obtain ⟨hstores, r, k, program, hr, hk, hp, rfl⟩ := outcomeBy_eq_ok_iff.mp hloaded
    have hcompile := (compileFile_source_iff hv hdir hname htext).mp hr
    obtain ⟨r', hr', hsame⟩ := (hinline r.program).mp ⟨r, hcompile, rfl⟩
    refine ⟨hstores, r', hr', ?_⟩
    rw [Compile.Compiled.code, hsame]
    exact hp
  · rintro ⟨hstores, r', hr', hp⟩
    obtain ⟨r, hcompile, hsame⟩ := (hinline r'.program).mpr ⟨r', hr', rfl⟩
    have hr := (compileFile_source_iff hv hdir hname htext).mpr hcompile
    obtain ⟨k, hk⟩ := exists_keyOf e (resolve_dependency hv hdir hname htext hcompile)
    have hcode : Program.ofCode? r.code = some program := by
      rw [Compile.Compiled.code, hsame]
      exact hp
    exact ⟨_, outcomeBy_eq_ok_iff.mpr ⟨hstores, r, k, program, hr, hk, hcode, rfl⟩, rfl⟩

-- So what keeps a template that renders inline from rendering by its name is that it cannot be stored.
theorem renderBy_iff_of_vacant {file : String} (hv : s.host.Valid) (hvacant : e.cache.Vacant s.host)
    (hdir : e.settings.templateDir = dir.path)
    (hname : e.resolve s.host name = .ok (Location.path (dir ++ [file])))
    (htext : s.host.textAt (dir ++ [file]) = .ok text) (out : String) :
    ((e.renderBy storage name vars).run s).1 = .ok out ↔
      e.Stores storage s.host (Location.path (dir ++ [file])) ∧ e.renderText s.host text vars = .ok out := by
  have hcompile := compileBy_iff_inline storage hv hvacant hdir hname htext
  rw [renderBy_eq_ok_iff, renderText_eq_ok_iff]
  constructor
  · rintro ⟨bindings, loaded, hb, hloaded, hout⟩
    obtain ⟨hstores, r, hr, hp⟩ := (hcompile loaded.program).mp ⟨loaded, hloaded, rfl⟩
    exact ⟨hstores, bindings, r, _, hb, hr, hp, (run_eq_ok_iff "<inline>").mp hout⟩
  · rintro ⟨hstores, bindings, r, program, hb, hr, hp, hout⟩
    obtain ⟨loaded, hloaded, rfl⟩ := (hcompile program).mpr ⟨hstores, r, hr, hp⟩
    exact ⟨bindings, loaded, hb, hloaded, (run_eq_ok_iff "<inline>").mpr hout⟩

-- A text in a file of the template directory, which a name leads to, rendered by that name and rendered
-- inline, with nothing in the cache. However storing may go, the first gives what the second gives as
-- long as what was compiled can be stored; where it cannot, the first fails as storing does.
theorem render_iff_renderText (e : Engine) (s : State) (name : String) (vars : Value) (dir : Location)
    (file text : String) (hv : s.host.Valid) (hvacant : e.cache.Vacant s.host)
    (hdir : e.settings.templateDir = dir.path)
    (hname : e.resolve s.host name = .ok (Location.path (dir ++ [file])))
    (htext : s.host.textAt (dir ++ [file]) = .ok text) :
    e.renderBy e.cache.store name vars = e.render name vars ∧
    ∀ storage : Storage,
      (∀ out, ((e.renderBy storage name vars).run s).1 = .ok out ↔
        e.Stores storage s.host (Location.path (dir ++ [file])) ∧ e.renderText s.host text vars = .ok out) ∧
      ∀ failure, e.Refuses storage s.host (Location.path (dir ++ [file])) failure →
        ((e.renderBy storage name vars).run s).1 = (bindingsOf vars >>= fun _ => .error failure) := by
  refine ⟨renderBy_store e name vars, fun storage => ⟨?_, fun failure hrefuses => ?_⟩⟩
  · exact renderBy_iff_of_vacant hv hvacant hdir hname htext
  · rw [renderBy_run_fst, compileBy_of_vacant storage hv hvacant hname, hrefuses.outcomeBy_eq]
    rfl

theorem exists_compiled (hmade : (e.compiled h source).toBool = true) :
    ∃ r k, e.compileFile h source = .ok r ∧ e.keyOf h source r.dependencies = .ok k := by
  cases hm : e.compiled h source with
  | error failure =>
    rw [hm] at hmade
    cases hmade
  | ok made => exact ⟨made.1, made.2, compiled_eq_ok_iff.mp hm⟩

-- A shelf with an empty cache, and with a template that includes itself.
private def freshShelf : State where
  host := Compile.shelf [(["work", "cache"], .directory ⟨0, 0⟩),
    (Compile.shelfPlace "again.html", .file "\x7b% include 'again' %\x7d".toUTF8 ⟨1, 0⟩)]
  counters := .zero

private def freshEngine : Engine :=
  ⟨⟨⟨"/work/templates"⟩, ⟨"/work/cache"⟩, "html", true, false⟩, .basic, ⟨⟨"/work/cache"⟩⟩⟩

-- A device without space left.
private def fullDevice : Storage := fun _ _ _ _ =>
  throw (.cache "write" ⟨"/work/cache"⟩ "No space left on device")

-- A page that is rendered, that page where nothing can be stored, and a template that includes itself.
theorem render_iff_renderText_shelf :
    ((freshEngine.render "page" (.object [("n", .string "<")])).run freshShelf).1 = .ok "<p>&lt;</p>" ∧
      ((freshEngine.renderBy fullDevice "page" (.object [("n", .string "<")])).run freshShelf).1 =
        .error (.cache "write" ⟨"/work/cache"⟩ "No space left on device") ∧
      ∀ out, ((freshEngine.render "again" .null).run freshShelf).1 ≠ .ok out := by
  have hv : freshShelf.host.Valid := ⟨.of_entries (by decide), by decide⟩
  have ho : freshEngine.cache.Open freshShelf.host := by decide
  have hvacant : freshEngine.cache.Vacant freshShelf.host := Cache.vacant_of_entries (by decide)
  have hroom : freshEngine.cache.Roomy := by decide +kernel
  have hdir : freshEngine.settings.templateDir = Location.path ["work", "templates"] := by decide
  obtain ⟨hown, hpage⟩ := render_iff_renderText freshEngine freshShelf "page" (.object [("n", .string "<")])
    ["work", "templates"] "page.html" Compile.shelfPage hv hvacant hdir (by decide +kernel)
    (by decide +kernel)
  obtain ⟨hown', hagain⟩ := render_iff_renderText freshEngine freshShelf "again" .null
    ["work", "templates"] "again.html" "\x7b% include 'again' %\x7d" hv hvacant hdir (by decide +kernel)
    (by decide +kernel)
  have hstores : freshEngine.Stores freshEngine.cache.store freshShelf.host
      (Location.path (["work", "templates"] ++ ["page.html"])) :=
    fun r k _ hk => (storedBy_store_iff (ho.ready hv) hvacant hk).mpr hroom
  have hmade : (freshEngine.compiled freshShelf.host
      (Location.path (["work", "templates"] ++ ["page.html"]))).toBool = true := by decide +kernel
  have htext : freshEngine.renderText freshShelf.host Compile.shelfPage (.object [("n", .string "<")]) =
      .ok "<p>&lt;</p>" := by decide +kernel
  have hfails : (freshEngine.renderText freshShelf.host "\x7b% include 'again' %\x7d" .null).toBool =
      false := by decide +kernel
  refine ⟨?_, ?_, fun out hout => ?_⟩
  · rw [← hown]
    exact ((hpage _).1 _).mpr ⟨hstores, htext⟩
  · obtain ⟨r, k, hr, hk⟩ := exists_compiled hmade
    exact (hpage fullDevice).2 _ ⟨r, k, hr, hk, rfl⟩
  · rw [← hown'] at hout
    rw [(((hagain _).1 out).mp hout).2] at hfails
    cases hfails

-- The same shelf, and a cache whose path is so long that no file can be named below it.
private def crampedEngine : Engine :=
  let cacheDir : Path := ⟨"cache" ++ String.ofList (List.replicate 4030 '/')⟩
  ⟨⟨⟨"/work/templates"⟩, cacheDir, "html", true, false⟩, .basic, ⟨cacheDir⟩⟩

theorem render_ne_renderText_cramped :
    ¬∀ (e : Engine) (s : State) (name : String) (vars : Value) (dir : Location) (file text : String),
      s.host.Valid → e.cache.Open s.host → e.cache.Vacant s.host → e.settings.templateDir = dir.path →
      e.resolve s.host name = .ok (Location.path (dir ++ [file])) →
      s.host.textAt (dir ++ [file]) = .ok text →
        ∀ out, ((e.render name vars).run s).1 = .ok out ↔ e.renderText s.host text vars = .ok out := by
  intro hall
  have hv : freshShelf.host.Valid := ⟨.of_entries (by decide), by decide⟩
  have hopens : freshShelf.host.Opens crampedEngine.cache.dir ["work", "cache"] :=
    (hv.opens (by decide)).1.slashes (by decide) 4030
  have hsize : crampedEngine.cache.dir.text.utf8ByteSize = 4035 := Path.utf8ByteSize_slashes "cache" 4030
  have husable : FileTree.unusable? crampedEngine.cache.dir = none :=
    Path.usable_slashes (by decide) (by decide) (by decide)
  have hfull : crampedEngine.cache.dir.text ≠ "" := by
    intro hempty
    rw [hempty] at hsize
    cases hsize
  have ho : crampedEngine.cache.Open freshShelf.host := by
    unfold Cache.Open Path.orHere
    rw [if_neg hfull]
    exact hopens.isDirectory husable
  have hvacant : crampedEngine.cache.Vacant freshShelf.host := by
    have hroot : crampedEngine.cache.root freshShelf.host.cwd = ["work", "cache"] :=
      (FileTree.walk_eq_ok hopens.walk).symm
    have hnone : ∀ p ∈ freshShelf.host.tree.entries, ¬freshEngine.cache.Owns freshShelf.host.cwd p.1 := by
      decide
    refine Cache.vacant_of_entries fun p hp hl => hnone p hp ?_
    unfold Cache.Owns at hl ⊢
    rw [hroot] at hl
    exact hl
  have hdir : crampedEngine.settings.templateDir = Location.path ["work", "templates"] := by decide
  have hname : crampedEngine.resolve freshShelf.host "page" =
      .ok (Location.path (["work", "templates"] ++ ["page.html"])) := by decide +kernel
  have htext : freshShelf.host.textAt (["work", "templates"] ++ ["page.html"]) = .ok Compile.shelfPage := by
    decide +kernel
  have hinline : crampedEngine.renderText freshShelf.host Compile.shelfPage (.object [("n", .string "<")]) =
      .ok "<p>&lt;</p>" := by decide +kernel
  have hmade : (crampedEngine.compiled freshShelf.host
      (Location.path (["work", "templates"] ++ ["page.html"]))).toBool = true := by decide +kernel
  have hrender := (hall crampedEngine freshShelf "page" _ _ _ _ hv ho hvacant hdir hname htext _).mpr hinline
  rw [← renderBy_store] at hrender
  obtain ⟨hstores, -⟩ := (renderBy_iff_of_vacant hv hvacant hdir hname htext _).mp hrender
  obtain ⟨r, k, hr, hk⟩ := exists_compiled hmade
  have hroom := ((storedBy_store_iff (ho.ready hv) hvacant hk).mp (hstores _ _ hr hk)).dir_lt
  rw [hsize] at hroom
  exact absurd hroom (by decide)

end Engine

end TemplateEngine
