import TemplateEngine.Cache.Key
import TemplateEngine.Proofs.Files.Place
import TemplateEngine.Proofs.Runs

-- What a key is the digest of tells which files the key stands for, and when they were changed.
namespace TemplateEngine.Cache

theorem stamped_eq_ok {h : Host} {p : Path} {s : Stamped} (hs : stamped h p = .ok s) :
    s.path = p ∧ h.changed p = .ok s.changed := by
  unfold stamped at hs
  split at hs
  · next t ht =>
    cases hs
    exact ⟨rfl, ht⟩
  · cases hs

theorem nul_notMem_of_changed {h : Host} {p : Path} {t : Instant} (ht : h.changed p = .ok t) :
    Char.ofNat 0 ∉ p.text.toList := by
  unfold Host.changed Host.entryAt at ht
  cases hr : h.resolve p with
  | error fault =>
    rw [hr] at ht
    cases ht
  | ok l => exact FileTree.unusable?_eq_none (FileTree.resolve_eq_ok hr).1

theorem mapM_stamped_eq_ok {h : Host} {ps : List Path} {files : List Stamped}
    (hf : ps.mapM (stamped h) = .ok files) :
    files.map Stamped.path = ps ∧ ∀ s ∈ files, h.changed s.path = .ok s.changed := by
  induction ps generalizing files with
  | nil =>
    cases hf
    exact ⟨rfl, fun s hs => absurd hs (by simp)⟩
  | cons p ps ih =>
    rw [List.mapM_cons] at hf
    obtain ⟨s, hs, hf⟩ := bind_eq_ok hf
    obtain ⟨others, hothers, hf⟩ := bind_eq_ok hf
    cases hf
    obtain ⟨hpath, hchanged⟩ := stamped_eq_ok hs
    obtain ⟨hpaths, hall⟩ := ih hothers
    refine ⟨by rw [List.map_cons, hpath, hpaths], fun u hu => ?_⟩
    rcases List.mem_cons.mp hu with rfl | hu
    · rw [hpath, hchanged]
    · exact hall u hu

theorem keyOf_eq_ok {h : Host} {source : Path} {dependencies : List Path} {salt : String} {k : Key}
    (hk : keyOf h source dependencies salt = .ok k) :
    ∃ files, (source :: dependencies).mapM (stamped h) = .ok files ∧ k = .ofFiles salt files := by
  obtain ⟨files, hf, hk⟩ := bind_eq_ok hk
  cases hk
  exact ⟨files, hf, rfl⟩

private theorem toDigits_inj {m n : Nat} (h : Nat.toDigits 10 m = Nat.toDigits 10 n) : m = n := by
  have hm := Nat.ofDigitChars_ten_toDigits (n := m)
  rw [h, Nat.ofDigitChars_ten_toDigits] at hm
  exact hm.symm

-- A path and a time, as they are told apart by a key.
def Stamped.view (s : Stamped) : Path × Nat := (s.path, s.changed.sinceEpoch)

private theorem toList_material (s : Stamped) (rest : List Char) :
    s.material.toList ++ rest =
      s.path.text.toList ++ Char.ofNat 0 :: (Nat.toDigits 10 s.changed.sinceEpoch ++ '\n' :: rest) := by
  simp only [Stamped.material, String.toList_append, Nat.toString_eq_repr, Nat.toList_repr,
    List.append_assoc]
  rfl

theorem append_cons_inj {α : Type} {a : α} {xs ys us vs : List α} (hx : a ∉ xs) (hy : a ∉ ys)
    (h : xs ++ a :: us = ys ++ a :: vs) : xs = ys ∧ us = vs := by
  induction xs generalizing ys with
  | nil =>
    cases ys with
    | nil => exact ⟨rfl, (List.cons.inj h).2⟩
    | cons y ys =>
      obtain ⟨rfl, -⟩ := List.cons.inj h
      exact absurd (List.mem_cons_self) hy
  | cons x xs ih =>
    cases ys with
    | nil =>
      obtain ⟨rfl, -⟩ := List.cons.inj h
      exact absurd (List.mem_cons_self) hx
    | cons y ys =>
      obtain ⟨rfl, htail⟩ := List.cons.inj h
      obtain ⟨rfl, hus⟩ := ih (fun hm => hx (by simp [hm])) (fun hm => hy (by simp [hm])) htail
      exact ⟨rfl, hus⟩

-- The entries of a material can be told apart: no path holds the character after it, and no number
-- a line break.
theorem join_material_inj {files files' : List Stamped}
    (hnul : ∀ s ∈ files, Char.ofNat 0 ∉ s.path.text.toList)
    (hnul' : ∀ s ∈ files', Char.ofNat 0 ∉ s.path.text.toList)
    (h : String.join (files.map Stamped.material) = String.join (files'.map Stamped.material)) :
    files.map Stamped.view = files'.map Stamped.view := by
  have hbreak : ∀ n, '\n' ∉ Nat.toDigits 10 n := fun n hn =>
    absurd (Nat.isDigit_of_mem_toDigits (by decide) (by decide) hn) (by decide)
  induction files generalizing files' with
  | nil =>
    cases files' with
    | nil => rfl
    | cons s' files' =>
      rw [List.map_cons, String.join_cons, ← String.toList_inj, String.toList_append, toList_material] at h
      simp at h
  | cons s files ih =>
    cases files' with
    | nil =>
      rw [List.map_cons, String.join_cons, ← String.toList_inj, String.toList_append, toList_material] at h
      simp at h
    | cons s' files' =>
      rw [List.map_cons, String.join_cons, List.map_cons, String.join_cons, ← String.toList_inj,
        String.toList_append, String.toList_append, toList_material, toList_material] at h
      obtain ⟨hpath, h⟩ := append_cons_inj (hnul s (by simp)) (hnul' s' (by simp)) h
      obtain ⟨htime, h⟩ := append_cons_inj (hbreak _) (hbreak _) h
      have hview : s.view = s'.view := by
        rw [Stamped.view, Stamped.view, toDigits_inj htime]
        congr 1
        cases hs : s.path
        cases hs' : s'.path
        rw [hs, hs'] at hpath
        exact congrArg Path.mk (String.toList_inj.mp hpath)
      rw [List.map_cons, List.map_cons, hview, ih (fun u hu => hnul u (by simp [hu]))
        (fun u hu => hnul' u (by simp [hu])) (String.toList_inj.mp h)]

-- With one salt, materials are equal only if they are made of the same files at the same times.
theorem same_of_material_eq {salt : String} {h h' : Host} {ps ps' : List Path}
    {files files' : List Stamped} (hf : ps.mapM (stamped h) = .ok files)
    (hf' : ps'.mapM (stamped h') = .ok files')
    (hm : Key.material salt files = Key.material salt files') :
    ps = ps' ∧ ∀ p ∈ ps, ∃ t t', h.changed p = .ok t ∧ h'.changed p = .ok t' ∧
      t.sinceEpoch = t'.sinceEpoch := by
  obtain ⟨hpaths, hchanged⟩ := mapM_stamped_eq_ok hf
  obtain ⟨hpaths', hchanged'⟩ := mapM_stamped_eq_ok hf'
  have hjoin : String.join (files.map Stamped.material) = String.join (files'.map Stamped.material) := by
    unfold Key.material at hm
    rw [← String.toList_inj] at hm ⊢
    simpa using hm
  have hview := join_material_inj (fun s hs => nul_notMem_of_changed (hchanged s hs))
    (fun s hs => nul_notMem_of_changed (hchanged' s hs)) hjoin
  constructor
  · have hfst := congrArg (List.map Prod.fst) hview
    rw [List.map_map, List.map_map] at hfst
    exact hpaths.symm.trans (hfst.trans hpaths')
  · intro p hp
    rw [← hpaths] at hp
    obtain ⟨s, hs, rfl⟩ := List.mem_map.mp hp
    have hmem : s.view ∈ files'.map Stamped.view := by
      rw [← hview]
      exact List.mem_map_of_mem hs
    obtain ⟨s', hs', heq⟩ := List.mem_map.mp hmem
    obtain ⟨hpath, htime⟩ := Prod.mk.inj heq
    refine ⟨s.changed, s'.changed, hchanged s hs, ?_, htime.symm⟩
    rw [← hpath]
    exact hchanged' s' hs'

end TemplateEngine.Cache
