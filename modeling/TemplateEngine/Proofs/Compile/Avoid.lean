import TemplateEngine.Proofs.Compile.Locality
import TemplateEngine.Proofs.Files.Walks

-- Places that no template asks about. What happens there changes nothing for a compilation.
namespace TemplateEngine

namespace FileTree

-- A walk along names asks about the places on the way and no others.
theorem prefix_of_mem_visited {t : FileTree} {l m k : Location} (hl : l.Proper) (hk : k ∈ t.visited m l) :
    ∃ front, front <+: l ∧ k = m ++ front := by
  induction l generalizing m with
  | nil =>
    rw [List.mem_singleton.mp hk]
    exact ⟨[], List.nil_prefix, (List.append_nil m).symm⟩
  | cons name l ih =>
    obtain ⟨hname, hl⟩ := List.forall_mem_cons.mp hl
    have hstep : lexicalStep m name = m ++ [name] := lexicalStep_name hname m
    unfold visited at hk
    split at hk
    · next n hs =>
      rcases List.mem_cons.mp hk with rfl | hk
      · exact ⟨[], List.nil_prefix, (List.append_nil k).symm⟩
      · obtain ⟨front, hfront, rfl⟩ := ih hl hk
        refine ⟨name :: front, List.cons_prefix_cons.mpr ⟨rfl, hfront⟩, ?_⟩
        rw [(step_eq_ok_iff.mp hs).2.1, hstep, List.append_assoc, List.singleton_append]
    · rcases List.mem_cons.mp hk with rfl | hk
      · exact ⟨[], List.nil_prefix, (List.append_nil k).symm⟩
      · rw [List.mem_singleton.mp hk, hstep]
        exact ⟨[name], List.cons_prefix_cons.mpr ⟨rfl, List.nil_prefix⟩, rfl⟩

end FileTree

namespace Host

variable {inside : Location → Prop} {h h' : Host} {l m : Location}

theorem prefix_of_mem_asked (hl : l.Proper) (hm : m ∈ h.asked l.path) : m <+: l := by
  have hstart : FileTree.start h.cwd l.path = [] := by simp [FileTree.start]
  unfold asked at hm
  split at hm
  · cases hm
  · rw [hstart, FileTree.stepNames_path hl] at hm
    have hroot : h.tree.step [] "" = .ok [] := rfl
    unfold FileTree.visited at hm
    rw [hroot] at hm
    rcases List.mem_cons.mp hm with rfl | hm
    · exact List.nil_prefix
    · by_cases he : l = []
      · rw [if_pos he] at hm
        unfold FileTree.visited at hm
        rw [hroot] at hm
        rcases List.mem_cons.mp hm with rfl | hm
        · exact List.nil_prefix
        · rw [List.mem_singleton.mp hm]
          exact List.nil_prefix
      · rw [if_neg he] at hm
        obtain ⟨front, hfront, rfl⟩ := FileTree.prefix_of_mem_visited hl hm
        exact hfront

-- Whether what is below an inner place is inside too.
def Downward (inside : Location → Prop) : Prop := ∀ l m, inside l → l <+: m → inside m

theorem not_inside_of_mem_asked (hdown : Downward inside) (hl : l.Proper) (hout : ¬inside l)
    (hm : m ∈ h.asked l.path) : ¬inside m := fun hin => hout (hdown m l hin (prefix_of_mem_asked hl hm))

theorem SameBut.read_path (hs : h.SameBut inside h') (hdown : Downward inside) (hl : l.Proper)
    (hout : ¬inside l) : h'.read l.path = h.read l.path := by
  unfold Host.read
  rw [(hs.resolve fun m hm => not_inside_of_mem_asked hdown hl hout hm).1]
  cases hr : h.resolve l.path with
  | error fault => rfl
  | ok m =>
    obtain rfl : m = l := (FileTree.resolve_eq_ok hr).2.trans (FileTree.place_path hl h.cwd)
    exact hs.textAt hout

theorem SameBut.changed_path (hs : h.SameBut inside h') (hdown : Downward inside) (hl : l.Proper)
    (hout : ¬inside l) {e : Entry} (he : h.tree.entry? l = some e) :
    h'.changed l.path = h.changed l.path := by
  unfold Host.changed Host.entryAt
  rw [(hs.resolve fun m hm => not_inside_of_mem_asked hdown hl hout hm).1]
  cases hr : h.resolve l.path with
  | error fault => rfl
  | ok m =>
    obtain rfl : m = l := (FileTree.resolve_eq_ok hr).2.trans (FileTree.place_path hl h.cwd)
    dsimp only
    rw [hs.entries m hout, he]

end Host

namespace Compile

variable {inside : Location → Prop} {h h' : Host} {options : Options} {c : Compiler} {name : String}
  {origin : Option Path} {p : Path} {l : Location}

-- The candidates that are tried, up to the first that is a file.
def tried (h : Host) : List Path → List Path
  | [] => []
  | p :: others => if (fileAt? h p).isSome then [p] else p :: tried h others

-- Whether finding a name asks about no place inside.
def Avoids (inside : Location → Prop) (options : Options) (h : Host) (name : String)
    (origin : Option Path) : Prop :=
  ∀ p ∈ tried h (allCandidates options name origin), ∀ l ∈ h.asked p, ¬inside l

theorem fileAt?_of_sameBut (hs : h.SameBut inside h') (hout : ∀ l ∈ h.asked p, ¬inside l) :
    fileAt? h' p = fileAt? h p := by
  unfold fileAt?
  rw [(hs.resolve hout).1]
  cases hr : h.resolve p with
  | error fault => rfl
  | ok l =>
    dsimp only
    rw [hs.entries l (hout l (Host.mem_asked_of_resolve hr))]

theorem locate_of_sameBut (hs : h.SameBut inside h') (ha : Avoids inside options h name origin) :
    locate options h' name origin = locate options h name origin := by
  have hall : ∀ all : List Path, (∀ p ∈ tried h all, ∀ l ∈ h.asked p, ¬inside l) →
      all.findSome? (fileAt? h') = all.findSome? (fileAt? h) := by
    intro all hout
    induction all with
    | nil => rfl
    | cons p all ih =>
      unfold tried at hout
      rw [List.findSome?_cons, List.findSome?_cons]
      cases hp : fileAt? h p with
      | some l =>
        rw [hp] at hout
        rw [fileAt?_of_sameBut hs (hout p (List.mem_singleton_self p)), hp]
      | none =>
        rw [hp] at hout
        obtain ⟨hfirst, hothers⟩ := List.forall_mem_cons.mp hout
        rw [fileAt?_of_sameBut hs hfirst, hp]
        exact ih hothers
  unfold locate
  dsimp only
  rw [hall _ ha]

theorem mem_tried {all : List Path} (hl : all.findSome? (fileAt? h) = some l) :
    ∃ p ∈ tried h all, fileAt? h p = some l := by
  induction all with
  | nil => cases hl
  | cons p all ih =>
    rw [List.findSome?_cons] at hl
    unfold tried
    cases hp : fileAt? h p with
    | some m =>
      rw [hp] at hl
      cases hl
      exact ⟨p, List.mem_singleton_self p, hp⟩
    | none =>
      rw [hp] at hl
      obtain ⟨q, hq, hql⟩ := ih hl
      exact ⟨q, List.mem_cons_of_mem _ hq, hql⟩

theorem Avoids.not_inside (ha : Avoids inside options h name origin)
    (hl : locate options h name origin = .ok l) : ¬inside l := by
  obtain ⟨p, hp, hpl⟩ := mem_tried (locate_eq_ok hl)
  exact ha p hp l (Host.mem_asked_of_resolve (fileAt?_eq_some_iff.mp hpl).1)

instance [DecidablePred inside] : Decidable (Avoids inside options h name origin) :=
  inferInstanceAs (Decidable (∀ p ∈ tried h (allCandidates options name origin), ∀ l ∈ h.asked p, ¬inside l))

-- Whether no name asks about a place inside, in a template or in those that it leads to.
def Template.Avoids (inside : Location → Prop) (c : Compiler) (h : Host) (a : Template) : Prop :=
  ∀ b, Reaches c h a b → ∀ p, plan c b.text = .ok p → ∀ name ∈ p.names,
    Compile.Avoids inside c.options h name b.path

theorem compile_of_sameBut (hs : h.SameBut inside h') {source : String} (origin : Option Location)
    (horigin : ∀ l ∈ origin, l.Proper)
    (ha : (Template.mk source (origin.map Location.path)).Avoids inside c h) :
    compile c h' source (origin.map Location.path) = compile c h source (origin.map Location.path) := by
  refine compile_congr horigin fun b hb p hp name hname => ?_
  have havoids := ha b hb p hp name hname
  exact ⟨locate_of_sameBut hs havoids, fun l hl => hs.textAt (havoids.not_inside hl)⟩

-- What a compilation depends on is found by names, none of which lead inside.
theorem exists_place_of_dependency {source : String} (origin : Option Location) {r : Compiled}
    (hcwd : h.cwd.Proper) (horigin : ∀ l ∈ origin, l.Proper)
    (hr : compile c h source (origin.map Location.path) = .ok r)
    (ha : (Template.mk source (origin.map Location.path)).Avoids inside c h) {d : Path}
    (hd : d ∈ r.dependencies) :
    ∃ l : Location, l.Proper ∧ ¬inside l ∧ d = l.path ∧
      ∃ content changed, h.tree.entry? l = some (.file content changed) := by
  obtain ⟨b, name, l, hb, ⟨⟨p, hp, hname⟩, hl⟩, rfl, -⟩ := dependencies_noted origin hcwd horigin hr hd
  exact ⟨l, locate_proper hcwd hl, (ha b hb p hp name hname).not_inside hl, rfl, entry?_of_locate hl⟩

-- Where a compilation succeeds, it notes every name that is looked for.
theorem avoids_of_compile {source : String} (origin : Option Location) {r : Compiled} (hcwd : h.cwd.Proper)
    (horigin : ∀ l ∈ origin, l.Proper) (hr : compile c h source (origin.map Location.path) = .ok r)
    (hout : ∀ q ∈ r.resolutions, Compile.Avoids inside c.options h q.name q.origin) :
    (Template.mk source (origin.map Location.path)).Avoids inside c h := by
  obtain ⟨nodes, t, hrun, rfl⟩ := compile_eq_ok horigin hr
  intro b hb p hp name hname
  obtain ⟨p', hp', hnames⟩ := link_follows (a := ⟨source, origin.map Location.path⟩) hrun hb
  obtain rfl : p = p' := Except.ok.inj (hp.symm.trans hp')
  obtain ⟨l, text, hl, -⟩ := hnames name hname
  have hnoted := link_notes (a := ⟨source, origin.map Location.path⟩) hcwd (canonical_of_proper horigin)
    hrun hb hl
  have havoids : Compile.Avoids inside c.options h name b.path := hout ⟨name, b.path, l.path⟩ hnoted.1
  exact havoids

end Compile

end TemplateEngine
