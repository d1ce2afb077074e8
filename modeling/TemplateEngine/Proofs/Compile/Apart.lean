import TemplateEngine.Proofs.Compile.Locality
import TemplateEngine.Proofs.Files.Trims

-- Files that no template leads to may be removed before a compilation.
namespace TemplateEngine.Compile

variable {inside : Location → Location → Prop} {h h' : Host} {options : Options} {c : Compiler}

theorem fileAt?_of_trims (ht : h.Trims inside h') {p : Path} {l : Location}
    (hl : fileAt? h' p = some l) : fileAt? h p = some l := by
  obtain ⟨hr, content, changed, he⟩ := fileAt?_eq_some_iff.mp hl
  exact fileAt?_eq_some_iff.mpr ⟨ht.resolve_of_resolve hr, content, changed, ht.entry?_of_some he⟩

theorem fileAt?_outside (ht : h.Trims inside h') {p : Path} {l : Location}
    (hl : fileAt? h p = some l) (hout : ¬inside h.cwd l) : fileAt? h' p = some l := by
  obtain ⟨hr, hfile⟩ := fileAt?_eq_some_iff.mp hl
  rw [fileAt?_eq_some_iff, ht.entry?_outside hout]
  exact ⟨ht.resolve_outside hr hout, hfile⟩

-- The first candidate that is a file is still the first, and where there is none there still is none.
theorem locate_outside (ht : h.Trims inside h') {name : String} {origin : Option Path}
    (hout : ∀ l, locate options h name origin = .ok l → ¬inside h.cwd l) :
    locate options h' name origin = locate options h name origin := by
  have hnone : ∀ p, fileAt? h p = none → fileAt? h' p = none := by
    intro p hp
    cases hp' : fileAt? h' p with
    | none => rfl
    | some l => rw [fileAt?_of_trims ht hp'] at hp; cases hp
  have hsame : ∀ all : List Path, (∀ l, all.findSome? (fileAt? h) = some l → ¬inside h.cwd l) →
      all.findSome? (fileAt? h') = all.findSome? (fileAt? h) := by
    intro all hall
    induction all with
    | nil => rfl
    | cons p all ih =>
      rw [List.findSome?_cons] at hall
      rw [List.findSome?_cons, List.findSome?_cons]
      cases hp : fileAt? h p with
      | none =>
        rw [hp] at hall
        rw [hnone p hp]
        exact ih hall
      | some l =>
        rw [hp] at hall
        rw [fileAt?_outside ht hp (hall l rfl)]
  unfold locate at hout ⊢
  dsimp only at hout ⊢
  rw [hsame]
  intro l hl
  rw [hl] at hout
  exact hout l rfl

-- Whether all that a template leads to stands outside.
def Template.Outside (c : Compiler) (h : Host) (inside : Location → Location → Prop) (a : Template) :
    Prop :=
  ∀ b, Reaches c h a b → ∀ name l, Follows c h b name l → ¬inside h.cwd l

theorem compile_of_trims (ht : h.Trims inside h') {source : String} (origin : Option Location)
    (horigin : ∀ l ∈ origin, l.Proper)
    (hout : (Template.mk source (origin.map Location.path)).Outside c h inside) :
    compile c h' source (origin.map Location.path) = compile c h source (origin.map Location.path) := by
  refine compile_congr horigin fun b hb p hp name hname => ?_
  have hl : ∀ l, locate c.options h name b.path = .ok l → ¬inside h.cwd l :=
    fun l hl => hout b hb name l ⟨⟨p, hp, hname⟩, hl⟩
  exact ⟨locate_outside ht hl, fun l hlocate => ht.textAt_outside (hl l hlocate)⟩

-- Where a compilation succeeds, all that its template leads to is among its dependencies.
theorem outside_of_compile {source : String} (origin : Option Location) {r : Compiled}
    (hcwd : h.cwd.Proper) (horigin : ∀ l ∈ origin, l.Proper)
    (hr : compile c h source (origin.map Location.path) = .ok r)
    (hout : ∀ l : Location, l.path ∈ r.dependencies → ¬inside h.cwd l) :
    (Template.mk source (origin.map Location.path)).Outside c h inside := by
  obtain ⟨nodes, t, hrun, rfl⟩ := compile_eq_ok horigin hr
  intro b hb name l hl
  have hnoted := link_notes (a := ⟨source, origin.map Location.path⟩) hcwd (canonical_of_proper horigin)
    hrun hb hl
  exact hout l hnoted.2

end TemplateEngine.Compile
