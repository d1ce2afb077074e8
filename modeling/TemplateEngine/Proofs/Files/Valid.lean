import TemplateEngine.Proofs.Files.Place
import Mathlib.Data.List.Induction

-- Trees as file systems have them: what stands somewhere stands in a directory, under a name that
-- a file may have. All changes to a tree keep it so.
namespace TemplateEngine

namespace FileTree

-- What is looked up by a key that a filter keeps is not affected by the filter.
private theorem lookup_filter_key (keep : Location → Bool) (m : Location)
    (entries : List (Location × Entry)) :
    (entries.filter fun p => keep p.1).lookup m = if keep m then entries.lookup m else none := by
  induction entries with
  | nil => simp
  | cons first entries ih =>
    obtain ⟨l, e⟩ := first
    rw [List.filter_cons, List.lookup_cons]
    by_cases hm : m = l
    · subst hm
      cases hk : keep m <;> simp [hk, ih]
    · have hb : (m == l) = false := beq_eq_false_iff_ne.mpr hm
      cases hk : keep l <;> simp [List.lookup_cons, hb, ih]

theorem entry?_set (t : FileTree) (l m : Location) (e : Entry) :
    FileTree.entry? (t.set l e) m = if m = l then some e else t.entry? m := by
  have hfilter := lookup_filter_key (· != l) m t.entries
  unfold set entry?
  rw [List.lookup_cons]
  by_cases hm : m = l
  · simp [hm]
  · have hb : (m == l) = false := beq_eq_false_iff_ne.mpr hm
    simpa [hm, hb] using hfilter

theorem entry?_erase (t : FileTree) (l m : Location) :
    FileTree.entry? (t.erase l) m = if l <+: m then none else t.entry? m := by
  have hfilter := lookup_filter_key (fun other => !l.isPrefixOf other) m t.entries
  unfold erase entry?
  rw [hfilter]
  by_cases hm : l <+: m
  · simp [List.isPrefixOf_iff_prefix.mpr hm, hm]
  · have hb : l.isPrefixOf m = false := by
      rw [← Bool.not_eq_true, List.isPrefixOf_iff_prefix]
      exact hm
    simp [hb, hm]

theorem isDirectoryAt_iff {t : FileTree} {l : Location} :
    t.isDirectoryAt l = true ↔ l = [] ∨ ∃ changed, t.entry? l = some (.directory changed) := by
  unfold isDirectoryAt
  split
  · simp
  · next changed he => simp [he]
  · next hnil hdir =>
    constructor
    · intro h
      cases h
    · rintro (rfl | ⟨changed, he⟩)
      · exact absurd rfl hnil
      · exact absurd he (hdir changed)

-- Whether all that stands in a tree stands in a directory, under names of files.
structure Valid (t : FileTree) : Prop where
  proper : ∀ l e, t.entry? l = some e → l.Proper
  parent : ∀ l e, t.entry? l = some e → t.isDirectoryAt l.parent = true

theorem mem_entries_of_some {t : FileTree} {l : Location} {e : Entry} (he : t.entry? l = some e) :
    (l, e) ∈ t.entries := by
  obtain ⟨before, after, hentries, -⟩ := List.lookup_eq_some_iff.mp he
  simp [hentries]

theorem Valid.of_entries {t : FileTree}
    (h : ∀ p ∈ t.entries, Location.Proper p.1 ∧ t.isDirectoryAt (Location.parent p.1) = true) : t.Valid :=
  ⟨fun _ _ he => (h _ (mem_entries_of_some he)).1, fun _ _ he => (h _ (mem_entries_of_some he)).2⟩

theorem Valid.isDirectoryAt_of_prefix {t : FileTree} (hv : t.Valid) {l m : Location} {e : Entry}
    (he : t.entry? m = some e) (hl : l <+: m) (hne : l ≠ m) : t.isDirectoryAt l = true := by
  induction m using List.reverseRecOn generalizing e with
  | nil => exact absurd (List.prefix_nil.mp hl) hne
  | append_singleton m n ih =>
    have hparent : t.isDirectoryAt m = true := by
      simpa [Location.parent] using hv.parent _ _ he
    rcases List.prefix_concat_iff.mp (by simpa using hl) with h | h
    · exact absurd (by simpa using h) hne
    · by_cases hlm : l = m
      · exact hlm ▸ hparent
      · rcases isDirectoryAt_iff.mp hparent with hnil | ⟨changed, hm⟩
        · exact absurd (List.prefix_nil.mp (hnil ▸ h)) (hnil ▸ hlm)
        · exact ih hm h hlm

-- Nothing stands below a place that is no directory.
theorem Valid.eq_of_prefix {t : FileTree} (hv : t.Valid) {l m : Location} {e : Entry}
    (hdir : t.isDirectoryAt l = false) (he : t.entry? m = some e) (hl : l <+: m) : l = m := by
  by_contra hne
  rw [hv.isDirectoryAt_of_prefix he hl hne] at hdir
  cases hdir

theorem Valid.set {t : FileTree} (hv : t.Valid) {l : Location} {e : Entry} (hl : l.Proper)
    (hparent : t.isDirectoryAt l.parent = true)
    (hdir : t.isDirectoryAt l = false ∨ ∃ changed, e = .directory changed) : (t.set l e).Valid := by
  have hkeeps : ∀ m, t.isDirectoryAt m = true → (t.set l e).isDirectoryAt m = true := by
    intro m hm
    rw [isDirectoryAt_iff] at hm ⊢
    rw [entry?_set]
    by_cases hml : m = l
    · rcases hdir with hdir | ⟨changed, rfl⟩
      · rw [← isDirectoryAt_iff, hml, hdir] at hm
        cases hm
      · exact .inr ⟨changed, if_pos hml⟩
    · simpa [hml] using hm
  constructor
  · intro m f hm
    rw [entry?_set] at hm
    split at hm
    · next hml => exact hml ▸ hl
    · exact hv.proper m f hm
  · intro m f hm
    rw [entry?_set] at hm
    split at hm
    · next hml => exact hml ▸ hkeeps _ hparent
    · exact hkeeps _ (hv.parent m f hm)

theorem Valid.erase {t : FileTree} (hv : t.Valid) (l : Location) : (t.erase l).Valid := by
  constructor
  · intro m f hm
    rw [entry?_erase] at hm
    split at hm
    · cases hm
    · exact hv.proper m f hm
  · intro m f hm
    rw [entry?_erase] at hm
    split at hm
    · cases hm
    · next hlm =>
      have hup : ¬l <+: m.parent := fun h => hlm (h.trans (List.dropLast_prefix m))
      have hparent := hv.parent m f hm
      rw [isDirectoryAt_iff] at hparent ⊢
      rwa [entry?_erase, if_neg hup]

theorem directoryFor_eq_ok {t : FileTree} {cwd l : Location} {p : Path} {names : List String}
    (h : t.directoryFor cwd p names = .ok l) :
    unusable? p = none ∧ l = names.dropLast.foldl lexicalStep (start cwd p) ∧
      t.isDirectoryAt l = true := by
  unfold directoryFor at h
  split at h
  · cases h
  · next hu =>
    cases hw : t.walk (start cwd p) names.dropLast with
    | error fault => rw [hw] at h; cases h
    | ok m =>
      rw [hw] at h
      change (if t.isDirectoryAt m then pure m else throw FileFault.notDirectory) = Except.ok l at h
      split at h
      · next hm =>
        cases h
        exact ⟨hu, walk_eq_ok hw, hm⟩
      · cases h

theorem childOf_eq_ok {l m : Location} {name : String} (h : childOf l name = .ok m) :
    m = l ++ [name] := by
  unfold childOf at h
  split at h
  · cases h
  · cases h
    rfl

-- A place for a new entry: in a directory, under the last name of a path.
structure Room (t : FileTree) (cwd : Location) (p : Path) (l : Location) : Prop where
  usable : unusable? p = none
  place : l = place cwd p
  parent : t.isDirectoryAt l.parent = true

private theorem room_of_names {t : FileTree} {cwd l : Location} {p : Path} {names : List String}
    (hdir : t.directoryFor cwd p names = .ok l) {name : String} (hlast : names.getLast? = some name)
    (hplace : names.foldl lexicalStep (start cwd p) = TemplateEngine.FileTree.place cwd p)
    (hstep : lexicalStep l name = l ++ [name]) : Room t cwd p (l ++ [name]) := by
  obtain ⟨hu, hl, hd⟩ := directoryFor_eq_ok hdir
  refine ⟨hu, ?_, by simpa [Location.parent] using hd⟩
  obtain ⟨front, rfl⟩ := List.getLast?_eq_some_iff.mp hlast
  rw [← hplace, List.foldl_append, List.foldl_cons, List.foldl_nil, ← hstep, hl]
  simp

private theorem foldl_lexicalStep_empties (names : List String) (l : Location) :
    (names.reverse.dropWhile String.isEmpty).reverse.foldl lexicalStep l = names.foldl lexicalStep l := by
  induction names using List.reverseRecOn with
  | nil => simp
  | append_singleton names name ih =>
    by_cases hn : name.isEmpty = true
    · have hstay : ∀ m, lexicalStep m name = m := by
        intro m
        simp [lexicalStep, String.isEmpty_iff.mp hn]
      simp [hn, ih, hstay]
    · simp [hn]

theorem target_eq_ok {t : FileTree} {cwd l : Location} {p : Path} (h : t.target cwd p = .ok l) :
    Room t cwd p l := by
  unfold target at h
  dsimp only at h
  cases hd : t.directoryFor cwd p (stepNames p) with
  | error fault => rw [hd] at h; cases h
  | ok m =>
    rw [hd] at h
    simp only [bind, Except.bind] at h
    split at h
    · cases h
    next hempty =>
    split at h
    · cases h
    next hdots =>
    obtain rfl := childOf_eq_ok h
    cases hlast : (stepNames p).getLast? with
    | none => simp [hlast] at hempty
    | some name =>
      simp only [hlast, Option.getD_some] at hempty hdots ⊢
      refine room_of_names hd hlast rfl ?_
      simp_all [lexicalStep]

theorem vacancy_eq_ok {t : FileTree} {cwd l : Location} {p : Path} (h : t.vacancy cwd p = .ok l) :
    Room t cwd p l ∧ t.entry? l = none := by
  unfold vacancy at h
  dsimp only at h
  generalize hnames : ((stepNames p).reverse.dropWhile String.isEmpty).reverse = names at h
  cases hd : t.directoryFor cwd p names with
  | error fault => rw [hd] at h; cases h
  | ok m =>
    rw [hd] at h
    simp only [bind, Except.bind] at h
    split at h
    · cases h
    next hdots =>
    simp only [pure, Except.pure] at h
    split at h
    · cases h
    next child hchild =>
    obtain rfl := childOf_eq_ok hchild
    split at h
    · cases h
    next hvacant =>
    cases h
    cases hlast : names.getLast? with
    | none => simp [hlast] at hdots
    | some name =>
      have hfull : name.isEmpty = false := by
        have hhead : ((stepNames p).reverse.dropWhile String.isEmpty).head? = some name := by
          rw [← hlast, ← hnames, List.getLast?_reverse]
        have hkept := List.head?_dropWhile_not String.isEmpty (stepNames p).reverse
        rw [hhead] at hkept
        simpa using hkept
      simp only [hlast, Option.getD_some] at hdots hvacant ⊢
      refine ⟨room_of_names hd hlast ?_ ?_, by simpa using hvacant⟩
      · rw [← hnames, foldl_lexicalStep_empties]
        rfl
      · simp_all [lexicalStep]

theorem Room.proper {t : FileTree} {cwd l : Location} {p : Path} (h : Room t cwd p l)
    (hcwd : cwd.Proper) : l.Proper := by
  rw [h.place]
  exact place_proper hcwd (unusable?_eq_none h.usable)

end FileTree

-- Hosts whose tree is as it should be, at a working directory that may be there.
structure Host.Valid (h : Host) : Prop where
  tree : h.tree.Valid
  cwd : h.cwd.Proper

end TemplateEngine
