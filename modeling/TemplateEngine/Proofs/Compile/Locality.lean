import TemplateEngine.Proofs.Compile.Findings

-- A compilation depends on the files around it only through what it notes: the names it followed,
-- where they led, and the texts that stand there.
namespace TemplateEngine.Compile

theorem Resolution.holds_iff {r : Resolution} {options : Options} {h : Host} :
    r.holds options h = true ↔
      ∃ l, locate options h r.name r.origin = .ok l ∧ l.path.same r.resolved = true := by
  unfold Resolution.holds
  cases locate options h r.name r.origin <;> simp

-- What stands at the noted places of a compilation, and how the noted names are resolved, is the
-- same in another host.
structure Compiled.AgreesOn (r : Compiled) (c : Compiler) (h h' : Host) : Prop where
  resolutions : ∀ q ∈ r.resolutions, q.holds c.options h' = true
  texts : ∀ l : Location, l.Proper → l.path ∈ r.dependencies → h'.textAt l = h.textAt l

theorem map_absolute {origin : Option Location} (horigin : ∀ l ∈ origin, l.Proper) (h : Host) :
    (origin.map Location.path).map h.absolute = origin.map Location.path := by
  cases origin with
  | none => rfl
  | some l => simp [Host.absolute_path (horigin l rfl)]

theorem compile_eq_ok {c : Compiler} {h : Host} {source : String} {origin : Option Location}
    {r : Compiled} (horigin : ∀ l ∈ origin, l.Proper)
    (hr : compile c h source (origin.map Location.path) = .ok r) :
    ∃ nodes t, (link c h (origin.map Location.path).toList source (origin.map Location.path)).run .empty
        = .ok (nodes, t) ∧ r = ⟨.ofNodes nodes, t.dependencies, t.resolutions⟩ := by
  have hrun := compile_run_ok hr
  rwa [map_absolute horigin] at hrun

theorem compile_congr {c : Compiler} {h h' : Host} {source : String} {origin : Option Location}
    (horigin : ∀ l ∈ origin, l.Proper)
    (hsame : ∀ b, Reaches c h ⟨source, origin.map Location.path⟩ b → SameFindings c h h' b) :
    compile c h' source (origin.map Location.path) = compile c h source (origin.map Location.path) := by
  unfold compile
  simp only [map_absolute horigin]
  rw [link_congr _ ⟨source, origin.map Location.path⟩ hsame]

theorem canonical_of_proper {source : String} {origin : Option Location}
    (horigin : ∀ l ∈ origin, l.Proper) : (Template.mk source (origin.map Location.path)).Canonical := by
  intro p hp
  obtain ⟨l, hl, rfl⟩ := Option.map_eq_some_iff.mp hp
  exact ⟨l, horigin l hl, rfl⟩

-- What a compilation notes is all that its templates find.
theorem Compiled.AgreesOn.sameFindings {c : Compiler} {h h' : Host} {source : String}
    {origin : Option Location} {r : Compiled} (hcwd : h.cwd.Proper) (hcwd' : h'.cwd.Proper)
    (horigin : ∀ l ∈ origin, l.Proper) (hr : compile c h source (origin.map Location.path) = .ok r)
    (hagrees : r.AgreesOn c h h') {b : Template}
    (hb : Reaches c h ⟨source, origin.map Location.path⟩ b) : SameFindings c h h' b := by
  obtain ⟨nodes, t, hrun, rfl⟩ := compile_eq_ok horigin hr
  intro p hp name hname
  obtain ⟨p', hp', hnames⟩ := link_follows (a := ⟨source, origin.map Location.path⟩) hrun hb
  obtain rfl : p = p' := Except.ok.inj (hp.symm.trans hp')
  obtain ⟨l, text, hfollows, -⟩ := hnames name hname
  have hnoted := link_notes (a := ⟨source, origin.map Location.path⟩) hcwd (canonical_of_proper horigin)
    hrun hb hfollows
  have hl := locate_proper hcwd hfollows.2
  obtain ⟨l', hl', hsame⟩ := Resolution.holds_iff.mp (hagrees.resolutions _ hnoted.1)
  obtain rfl := (Location.path_same_iff (locate_proper hcwd' hl') hl).mp hsame
  refine ⟨hl'.trans hfollows.2.symm, fun m hm => ?_⟩
  obtain rfl : l' = m := Except.ok.inj (hfollows.2.symm.trans hm)
  exact hagrees.texts l' hl hnoted.2

-- A host in which all noted names are found where they were, with the same texts, gives the same
-- program with the same dependencies and resolutions, whatever else it holds.
theorem compile_eq_of_agreesOn (c : Compiler) (h h' : Host) (source : String) (origin : Option Location)
    (r : Compiled) (hcwd : h.cwd.Proper) (hcwd' : h'.cwd.Proper) (horigin : ∀ l ∈ origin, l.Proper)
    (hr : compile c h source (origin.map Location.path) = .ok r) (hagrees : r.AgreesOn c h h') :
    compile c h' source (origin.map Location.path) = .ok r := by
  have hsame := fun b hb => hagrees.sameFindings (b := b) hcwd hcwd' horigin hr hb
  rw [compile_congr horigin hsame]
  exact hr

-- What was followed is found again as long as nothing changes.
theorem Trail.Sound.holds {c : Compiler} {h : Host} {a : Template} {t : Trail} (hsound : t.Sound c h a) :
    ∀ q ∈ t.resolutions, q.holds c.options h = true := by
  intro q hq
  obtain ⟨b, l, -, ⟨-, hl⟩, horigin, hresolved⟩ := hsound.resolutions q hq
  rw [← horigin] at hl
  exact Resolution.holds_iff.mpr ⟨l, hl, by rw [hresolved]; exact Path.same_self _⟩

theorem resolutions_hold {c : Compiler} {h : Host} {source : String} (origin : Option Location)
    {r : Compiled} (horigin : ∀ l ∈ origin, l.Proper)
    (hr : compile c h source (origin.map Location.path) = .ok r) :
    ∀ q ∈ r.resolutions, q.holds c.options h = true := by
  obtain ⟨nodes, t, hrun, rfl⟩ := compile_eq_ok horigin hr
  exact (link_sound _ ⟨source, origin.map Location.path⟩ hrun .refl (Trail.empty_sound c h _)).holds

theorem dependencies_noted {c : Compiler} {h : Host} {source : String} (origin : Option Location)
    {r : Compiled} (hcwd : h.cwd.Proper) (horigin : ∀ l ∈ origin, l.Proper)
    (hr : compile c h source (origin.map Location.path) = .ok r) {d : Path} (hd : d ∈ r.dependencies) :
    ∃ b name l, Reaches c h ⟨source, origin.map Location.path⟩ b ∧ Follows c h b name l ∧ d = l.path ∧
      ⟨name, b.path, l.path⟩ ∈ r.resolutions := by
  obtain ⟨nodes, t, hrun, rfl⟩ := compile_eq_ok horigin hr
  have hsound := link_sound _ ⟨source, origin.map Location.path⟩ hrun .refl (Trail.empty_sound c h _)
  obtain ⟨b, name, l, hb, hl, hdl⟩ := hsound.dependencies d hd
  have hnoted := link_notes (a := ⟨source, origin.map Location.path⟩) hcwd (canonical_of_proper horigin)
    hrun hb hl
  exact ⟨b, name, l, hb, hl, hdl, hnoted.1⟩

def shelfPlace (name : String) : Location := ["work", "templates", name]

def shelfPage : String := "<p>\x7b% include 'note' %\x7d</p>"

-- A page and the note that it includes, with some other entries.
def shelf (others : List (Location × Entry)) : Host where
  tree := ⟨[(["work"], .directory ⟨0, 0⟩), (["work", "templates"], .directory ⟨0, 0⟩),
    (shelfPlace "page.html", .file shelfPage.toUTF8 ⟨1, 0⟩),
    (shelfPlace "note.html", .file "\x7b\x7b n \x7d\x7d".toUTF8 ⟨2, 0⟩)] ++ others⟩
  cwd := ["work"]
  clock := ⟨3, 0⟩
  cacheHome := none

def shelfCompiler : Compiler := ⟨.basic, ⟨⟨"templates"⟩, "html", true⟩⟩

theorem compile_shelf_page : ∃ r,
    compile shelfCompiler (shelf []) shelfPage (some (shelfPlace "page.html").path) = .ok r ∧
      r.AgreesOn shelfCompiler (shelf []) (shelf [(["work", "note"], .file "other".toUTF8 ⟨9, 0⟩)]) ∧
      compile shelfCompiler (shelf [(["work", "note"], .file "other".toUTF8 ⟨9, 0⟩)]) shelfPage
        (some (shelfPlace "page.html").path) = .ok r := by
  have hfound : (compile shelfCompiler (shelf []) shelfPage
      ((some (shelfPlace "page.html")).map Location.path)).map (fun r => (r.dependencies, r.resolutions)) =
      .ok ([(shelfPlace "note.html").path],
        [⟨"note", some (shelfPlace "page.html").path, (shelfPlace "note.html").path⟩]) := by
    decide +kernel
  cases hr : compile shelfCompiler (shelf []) shelfPage
      ((some (shelfPlace "page.html")).map Location.path) with
  | error failure => rw [hr] at hfound; cases hfound
  | ok r =>
    rw [hr] at hfound
    obtain ⟨hdependencies, hresolutions⟩ := Prod.mk.inj (Except.ok.inj hfound)
    have hagrees : r.AgreesOn shelfCompiler (shelf [])
        (shelf [(["work", "note"], .file "other".toUTF8 ⟨9, 0⟩)]) := by
      constructor
      · rw [hresolutions]
        decide +kernel
      · rw [hdependencies]
        intro l hl hmem
        obtain rfl : l = shelfPlace "note.html" :=
          Location.parts_inj hl (by decide) (by rw [List.mem_singleton.mp hmem])
        decide +kernel
    exact ⟨r, hr, hagrees, compile_eq_of_agreesOn shelfCompiler (shelf []) _ _
      (some (shelfPlace "page.html")) r (by decide) (by decide) (fun l hl => by cases hl; decide) hr
      hagrees⟩

end TemplateEngine.Compile
