import TemplateEngine.Proofs.Cache.Own
import TemplateEngine.Proofs.Compile.Avoid
import TemplateEngine.Proofs.Engine.Session

-- Engines whose templates ask about no place of the cache: whatever happens there, names lead to the
-- same sources, and these give the same programs and keys.
namespace TemplateEngine

theorem Cache.owns_downward (c : Cache) (cwd : Location) : Host.Downward (c.Owns cwd) :=
  fun _ _ hl hlm => hl.mono hlm

namespace Engine

variable {e : Engine} {h h' : Host} {name : String} {source : Path} {r : Compile.Compiled}

-- Whether neither a template nor any that it leads to is looked for in a place of the cache.
def Avoids (e : Engine) (h : Host) (name : String) : Prop :=
  Compile.Avoids (e.cache.Owns h.cwd) e.settings.compileOptions h name none ∧
    ∀ l, Compile.locate e.settings.compileOptions h name none = .ok l → ∀ text, h.textAt l = .ok text →
      (Compile.Template.mk text (some l.path)).Avoids (e.cache.Owns h.cwd) e.compiler h

theorem resolve_of_sameBut (hs : h.SameBut (e.cache.Owns h.cwd) h') (ha : e.Avoids h name) :
    e.resolve h' name = e.resolve h name := by
  unfold resolve
  rw [Compile.locate_of_sameBut hs ha.1]

-- Where a template compiles, all that it is joined from is known.
theorem avoids_of_compileFile {l : Location} (hcwd : h.cwd.Proper)
    (ha : Compile.Avoids (e.cache.Owns h.cwd) e.settings.compileOptions h name none)
    (hl : Compile.locate e.settings.compileOptions h name none = .ok l)
    (hout : ((e.compileFile h l.path).toOption.any fun r => decide (∀ q ∈ r.resolutions,
      Compile.Avoids (e.cache.Owns h.cwd) e.settings.compileOptions h q.name q.origin)) = true) :
    e.Avoids h name := by
  cases hr : e.compileFile h l.path with
  | error failure =>
    rw [hr] at hout
    cases hout
  | ok r =>
    rw [hr] at hout
    have hout := of_decide_eq_true hout
    refine ⟨ha, fun m hm text htext => ?_⟩
    obtain rfl : l = m := Except.ok.inj (hl.symm.trans hm)
    have hproper := Compile.locate_proper hcwd hl
    obtain ⟨text', hread, hcompile⟩ := compileFile_eq_ok.mp hr
    obtain rfl : text = text' := Except.ok.inj (htext.symm.trans (textAt_of_read hproper hread))
    have hbelow := Compile.avoids_of_compile (some l) hcwd (fun _ => hproper.of_mem_some) hcompile hout
    exact hbelow

-- A file that stands outside the cache.
structure Outside (e : Engine) (h : Host) (p : Path) (l : Location) : Prop where
  proper : l.Proper
  outside : ¬e.cache.Owns h.cwd l
  path : p = l.path
  file : ∃ content changed, h.tree.entry? l = some (.file content changed)

theorem Avoids.of_resolve (ha : e.Avoids h name) (hcwd : h.cwd.Proper) (hsource : e.resolve h name = .ok source) :
    ∃ l, e.Outside h source l ∧ Compile.locate e.settings.compileOptions h name none = .ok l := by
  obtain ⟨l, hl, rfl⟩ := resolve_eq_ok hsource
  exact ⟨l, ⟨Compile.locate_proper hcwd hl, ha.1.not_inside hl, rfl, Compile.entry?_of_locate hl⟩, hl⟩

theorem compileFile_of_sameBut (hs : h.SameBut (e.cache.Owns h.cwd) h') (ha : e.Avoids h name)
    (hcwd : h.cwd.Proper) (hsource : e.resolve h name = .ok source) :
    e.compileFile h' source = e.compileFile h source := by
  obtain ⟨l, ⟨hproper, hout, rfl, -⟩, hl⟩ := ha.of_resolve hcwd hsource
  unfold compileFile
  rw [hs.read_path (e.cache.owns_downward h.cwd) hproper hout]
  cases hread : h.read l.path with
  | error fault => rfl
  | ok text =>
    have hbelow := ha.2 l hl text (textAt_of_read hproper hread)
    have hcompile := Compile.compile_of_sameBut hs (some l) (fun _ => hproper.of_mem_some) hbelow
    exact congrArg (Except.mapError Failure.compile) hcompile

theorem Avoids.places (ha : e.Avoids h name) (hcwd : h.cwd.Proper) (hsource : e.resolve h name = .ok source)
    (hr : e.compileFile h source = .ok r) : ∀ p ∈ source :: r.dependencies, ∃ l, e.Outside h p l := by
  obtain ⟨l, hplace, hl⟩ := ha.of_resolve hcwd hsource
  obtain ⟨text, htext, hcompile⟩ := compileFile_eq_ok.mp hr
  intro p hp
  rcases List.mem_cons.mp hp with rfl | hdependency
  · exact ⟨l, hplace⟩
  · obtain ⟨hproper, -, rfl, -⟩ := hplace
    have hbelow := ha.2 l hl text (textAt_of_read hproper htext)
    obtain ⟨m, hm, hout, hpath, hfile⟩ := Compile.exists_place_of_dependency (some l) hcwd
      (fun _ => hproper.of_mem_some) hcompile hbelow hdependency
    exact ⟨m, hm, hout, hpath, hfile⟩

theorem changed_of_sameBut (hs : h.SameBut (e.cache.Owns h.cwd) h') {p : Path} {l : Location}
    (hp : e.Outside h p l) : h'.changed p = h.changed p := by
  obtain ⟨hproper, hout, rfl, content, changed, he⟩ := hp
  exact hs.changed_path (e.cache.owns_downward h.cwd) hproper hout he

theorem keyOf_of_sameBut (hs : h.SameBut (e.cache.Owns h.cwd) h') (ha : e.Avoids h name)
    (hcwd : h.cwd.Proper) (hsource : e.resolve h name = .ok source) (hr : e.compileFile h source = .ok r) :
    e.keyOf h' source r.dependencies = e.keyOf h source r.dependencies := by
  unfold keyOf Cache.keyOf
  rw [Compile.mapM_congr fun p hp => ?_]
  obtain ⟨l, hl⟩ := ha.places hcwd hsource hr p hp
  unfold Cache.stamped
  rw [changed_of_sameBut hs hl]

-- Time goes by, and nothing else happens.
def State.tick (s : State) (now : Instant) : State := { s with host := { s.host with clock := now } }

-- A source that a template leads to, in a host of which only places of the cache may have changed.
structure Leads (e : Engine) (base : Host) (name : String) (source : Path) (h : Host) : Prop where
  avoids : e.Avoids base name
  cwd : base.cwd.Proper
  resolved : e.resolve base name = .ok source
  same : base.SameBut (e.cache.Owns base.cwd) h

namespace Leads

variable {base : Host} {s : State}

theorem tick (hl : e.Leads base name source s.host) (now : Instant) :
    e.Leads base name source (s.tick now).host :=
  ⟨hl.avoids, hl.cwd, hl.resolved, hl.same.cwd, hl.same.entries⟩

theorem resolve (hl : e.Leads base name source h) : e.resolve h name = .ok source :=
  (resolve_of_sameBut hl.same hl.avoids).trans hl.resolved

theorem compileFile (hl : e.Leads base name source h) : e.compileFile h source = e.compileFile base source :=
  compileFile_of_sameBut hl.same hl.avoids hl.cwd hl.resolved

theorem keyOf (hl : e.Leads base name source h) (hr : e.compileFile base source = .ok r) :
    e.keyOf h source r.dependencies = e.keyOf base source r.dependencies :=
  keyOf_of_sameBut hl.same hl.avoids hl.cwd hl.resolved hr

end Leads

-- A page with a note, and a cache.
def stall (kept : List (Location × Entry)) : State where
  host := {
    tree := ⟨[([], .directory ⟨0, 0⟩), (["c"], .directory ⟨0, 0⟩),
      (["p"], .file "\x7b% include 'n' %\x7d".toUTF8 ⟨0, 1⟩), (["n"], .file "1".toUTF8 ⟨0, 2⟩)] ++ kept⟩
    cwd := []
    clock := ⟨4, 0⟩
    cacheHome := none
  }
  counters := .zero

def stallEngine : Engine := ⟨⟨⟨""⟩, ⟨"c"⟩, "", true, false⟩, .basic, ⟨⟨"c"⟩⟩⟩

end Engine

end TemplateEngine
