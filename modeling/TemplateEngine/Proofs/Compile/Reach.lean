import TemplateEngine.Proofs.Compile.Plan
import TemplateEngine.Proofs.Files.Place
import Mathlib.Logic.Relation

-- Templates that refer to one another, and what joining a template takes from the files it reaches.
-- Only what is found under the names that are followed matters, and on success all of it is noted.
namespace TemplateEngine.Compile

-- A text and the path it comes from. Inline text has none.
structure Template where
  text : String
  path : Option Path

-- A template names another one, which is found at a place.
def Follows (c : Compiler) (h : Host) (a : Template) (name : String) (l : Location) : Prop :=
  (∃ p, plan c a.text = .ok p ∧ name ∈ p.names) ∧ locate c.options h name a.path = .ok l

def Refers (c : Compiler) (h : Host) (a b : Template) : Prop :=
  ∃ name l, Follows c h a name l ∧ h.textAt l = .ok b.text ∧ b.path = some l.path

abbrev Reaches (c : Compiler) (h : Host) : Template → Template → Prop :=
  Relation.ReflTransGen (Refers c h)

theorem fileAt?_eq_some_iff {h : Host} {p : Path} {l : Location} :
    fileAt? h p = some l ↔
      h.resolve p = .ok l ∧ ∃ content changed, h.tree.entry? l = some (.file content changed) := by
  unfold fileAt?
  constructor
  · intro hl
    split at hl
    · next l' hr =>
      split at hl
      · next hf =>
        cases hl
        rcases he : h.tree.entry? l with _ | ⟨content, changed⟩ | changed
        · simp [he] at hf
        · exact ⟨hr, content, changed, rfl⟩
        · simp [he, Entry.isFile] at hf
      · cases hl
    · cases hl
  · rintro ⟨hr, content, changed, he⟩
    simp [hr, he, Entry.isFile]

theorem locate_eq_ok {options : Options} {h : Host} {name : String} {origin : Option Path}
    {l : Location} (hl : locate options h name origin = .ok l) :
    (allCandidates options name origin).findSome? (fileAt? h) = some l := by
  unfold locate at hl
  dsimp only at hl
  split at hl
  · next l' hf => cases hl; exact hf
  · cases hl

theorem locate_proper {options : Options} {h : Host} {name : String} {origin : Option Path}
    {l : Location} (hcwd : h.cwd.Proper) (hl : locate options h name origin = .ok l) : l.Proper := by
  obtain ⟨p, -, hp⟩ := List.exists_of_findSome?_eq_some (locate_eq_ok hl)
  exact Host.resolve_proper hcwd (fileAt?_eq_some_iff.mp hp).1

theorem entry?_of_locate {options : Options} {h : Host} {name : String} {origin : Option Path}
    {l : Location} (hl : locate options h name origin = .ok l) :
    ∃ content changed, h.tree.entry? l = some (.file content changed) := by
  obtain ⟨p, -, hp⟩ := List.exists_of_findSome?_eq_some (locate_eq_ok hl)
  exact (fileAt?_eq_some_iff.mp hp).2

-- Whether a template comes from nowhere, or from the path of a proper place.
def Template.Canonical (a : Template) : Prop := ∀ p ∈ a.path, ∃ l : Location, l.Proper ∧ p = l.path

theorem Template.Canonical.of_reaches {c : Compiler} {h : Host} {a b : Template} (hcwd : h.cwd.Proper)
    (ha : a.Canonical) (hb : Reaches c h a b) : b.Canonical := by
  induction hb with
  | refl => exact ha
  | tail _ hrefers _ =>
    obtain ⟨name, l, ⟨-, hl⟩, -, hpath⟩ := hrefers
    intro p hp
    rw [hpath] at hp
    exact ⟨l, locate_proper hcwd hl, (Option.mem_some_iff.mp hp).symm⟩

theorem Template.Canonical.path_eq {a b : Template} (ha : a.Canonical) (hb : b.Canonical)
    (hab : sameOrigin a.path b.path = true) : a.path = b.path := by
  unfold Template.Canonical at ha hb
  cases hpa : a.path <;> cases hpb : b.path <;> simp only [hpa, hpb, sameOrigin] at ha hb hab ⊢
  · cases hab
  · cases hab
  · obtain ⟨l, hl, rfl⟩ := ha _ rfl
    obtain ⟨m, hm, rfl⟩ := hb _ rfl
    rw [(Location.path_same_iff hl hm).mp hab]

-- Whether two hosts find the same under all names that a template follows.
def SameFindings (c : Compiler) (h h' : Host) (a : Template) : Prop :=
  ∀ p, plan c a.text = .ok p → ∀ name ∈ p.names,
    locate c.options h' name a.path = locate c.options h name a.path ∧
      ∀ l, locate c.options h name a.path = .ok l → h'.textAt l = h.textAt l

-- What holds of a template once it holds of all files that are not on the stack holds of all:
-- with every file entered fewer are left.
theorem unvisited_induction {h : Host} {motive : List Path → Template → Prop}
    (step : ∀ stack a, (∀ l text, ¬stack.any (·.same l.path) = true → h.textAt l = .ok text →
      motive (stack ++ [l.path]) ⟨text, some l.path⟩) → motive stack a)
    (stack : List Path) (a : Template) : motive stack a := by
  induction hn : (unvisited h stack).length using Nat.strongRecOn generalizing stack a with
  | _ n ih =>
    subst hn
    exact step stack a fun l text hl hs => ih _ (length_unvisited_lt hl hs) _ _ rfl

theorem mapM_congr {m : Type → Type} [Monad m] [LawfulMonad m] {α β : Type} {f g : α → m β}
    {xs : List α} (hfg : ∀ x ∈ xs, f x = g x) : xs.mapM f = xs.mapM g := by
  induction xs with
  | nil => rfl
  | cons x xs ih =>
    rw [List.mapM_cons, List.mapM_cons, hfg x (by simp), ih fun y hy => hfg y (by simp [hy])]

-- Joining depends on nothing but what is found under the names that are reached.
theorem link_congr {c : Compiler} {h h' : Host} (stack : List Path) (a : Template)
    (hsame : ∀ b, Reaches c h a b → SameFindings c h h' b) :
    link c h' stack a.text a.path = link c h stack a.text a.path := by
  induction stack, a using unvisited_induction (h := h) with
  | step stack a ih =>
    refine StateT.ext fun t => ?_
    rw [link_run, link_run]
    cases hp : plan c a.text with
    | error fault => rfl
    | ok p =>
      have hvisit : ∀ name ∈ p.names,
          visit c h' stack a.path name = visit c h stack a.path name := by
        intro name hname
        obtain ⟨hlocate, htext⟩ := hsame a .refl p hp name hname
        refine StateT.ext fun t => ?_
        rw [visit_run, visit_run, hlocate]
        cases hl : locate c.options h name a.path with
        | error searched => rfl
        | ok l =>
          simp only [linkFile_run, htext l hl]
          split
          · rfl
          · next hany =>
            cases hs : h.textAt l with
            | error fault => rfl
            | ok text =>
              have hrefers : Refers c h a ⟨text, some l.path⟩ :=
                ⟨name, l, ⟨⟨p, hp, hname⟩, hl⟩, hs, rfl⟩
              simp only
              rw [ih l text hany hs fun b hb => hsame b (.head hrefers hb)]
      simp only [mapM_congr hvisit]

end TemplateEngine.Compile
