import TemplateEngine.Proofs.Files.Growth
import Mathlib.Data.List.Nodup

-- What a directory lists: the names under which something stands in it, each once where no place of
-- the tree has two entries.
namespace TemplateEngine

namespace FileTree

variable {t : FileTree} {l m : Location} {name : String}

-- Whether each place is listed once.
def Single (t : FileTree) : Prop := (t.entries.map (·.1)).Nodup

instance (t : FileTree) : Decidable t.Single := inferInstanceAs (Decidable (List.Nodup _))

theorem isSome_entry?_iff : (t.entry? l).isSome = true ↔ l ∈ t.entries.map (·.1) := by
  unfold entry?
  rw [List.lookup_isSome_iff]
  simp

-- The name of a place in a directory, if that is where the place is.
private def nameIn? (l other : Location) : Option String :=
  if other.parent = l && other ≠ [] then other.getLast? else none

private theorem nameIn?_eq_some_iff : nameIn? l m = some name ↔ m = l ++ [name] := by
  unfold nameIn?
  constructor
  · intro h
    split at h
    · next hchild =>
      obtain ⟨front, rfl⟩ := List.getLast?_eq_some_iff.mp h
      simp only [Location.parent, List.dropLast_concat, Bool.and_eq_true, decide_eq_true_eq] at hchild
      rw [hchild.1]
    · cases h
  · rintro rfl
    simp [Location.parent]

private theorem namesIn_eq (t : FileTree) (l : Location) :
    t.namesIn l = (t.entries.map (·.1)).filterMap (nameIn? l) := by
  rw [List.filterMap_map]
  rfl

theorem mem_namesIn : name ∈ t.namesIn l ↔ (t.entry? (l ++ [name])).isSome = true := by
  rw [namesIn_eq, List.mem_filterMap, isSome_entry?_iff]
  constructor
  · rintro ⟨m, hm, hname⟩
    rwa [nameIn?_eq_some_iff.mp hname] at hm
  · intro hm
    exact ⟨_, hm, nameIn?_eq_some_iff.mpr rfl⟩

theorem Single.namesIn_nodup (ht : t.Single) (l : Location) : (t.namesIn l).Nodup := by
  rw [namesIn_eq]
  refine List.Nodup.filterMap (fun m m' name hm hm' => ?_) ht
  rw [nameIn?_eq_some_iff.mp hm, nameIn?_eq_some_iff.mp hm']

theorem Single.set (ht : t.Single) (l : Location) (e : Entry) : Single (t.set l e) := by
  unfold Single FileTree.set
  rw [List.map_cons, List.nodup_cons]
  constructor
  · simp
  · exact ht.sublist (List.filter_sublist.map _)

theorem Single.erase (ht : t.Single) (l : Location) : Single (t.erase l) := by
  unfold Single FileTree.erase
  exact ht.sublist (List.filter_sublist.map _)

end FileTree

namespace Host

theorem list_eq_ok {h : Host} {p : Path} {names : List String} (hl : h.list p = .ok names) :
    h.resolve p = .ok (FileTree.place h.cwd p) ∧
      names = (h.tree.namesIn (FileTree.place h.cwd p)).mergeSort fun a b => !(b < a) := by
  unfold list at hl
  obtain ⟨l, hr, hl⟩ := bind_eq_ok hl
  obtain rfl := (FileTree.resolve_eq_ok hr).2
  split at hl
  · cases hl
    exact ⟨hr, rfl⟩
  · cases hl

-- Names that are listed in a valid tree are names of files.
theorem Valid.isFileName_of_list {h : Host} (hv : h.Valid) {p : Path} {names : List String}
    (hl : h.list p = .ok names) {name : String} (hname : name ∈ names) : IsFileName name := by
  rw [(list_eq_ok hl).2, List.mem_mergeSort, FileTree.mem_namesIn] at hname
  obtain ⟨e, he⟩ := Option.isSome_iff_exists.mp hname
  exact hv.tree.proper _ e he name (by simp)

end Host

end TemplateEngine
