import TemplateEngine.Proofs.Cache.Own
import TemplateEngine.Proofs.Files.Listing
import TemplateEngine.Proofs.Files.Order

-- The listing of a cache: which entries it shows, and in which order.
namespace TemplateEngine

namespace Cache

variable {c : Cache} {h : Host} {k : Key} {m : Metadata} {all : List (Key × Metadata)}

-- A name stands for a key if it is that of the key's metadata.
theorem keyOfName?_eq_some_iff {name : String} : keyOfName? name = some k ↔ name = k.digits ++ metaSuffix := by
  have hends : name.endsWith metaSuffix = true ↔ metaSuffix.toList <:+ name.toList := by
    unfold String.endsWith
    rw [String.Slice.endsWith_string_iff, String.copy_toSlice]
  unfold keyOfName?
  constructor
  · intro h
    split at h
    · next hname =>
      cases h
      obtain ⟨stem, hstem⟩ := hends.mp hname
      rw [← String.toList_inj, String.toList_append, String.toList_ofList, ← hstem]
      simp [← String.length_toList, ← hstem]
    · cases h
  · rintro rfl
    rw [if_pos (hends.mpr ⟨k.digits.toList, (String.toList_append ..).symm⟩), String.toList_append,
      String.length_append, Nat.add_sub_cancel, ← String.length_toList, List.take_left,
      String.ofList_toList]

theorem Key.Plain.of_isFileName (hk : IsFileName (k.digits ++ metaSuffix)) : k.Plain := by
  obtain ⟨-, -, -, hslash, hnul⟩ := hk
  rw [String.toList_append, List.mem_append, not_or] at hslash hnul
  exact ⟨hslash.1, hnul.1⟩

-- The entry that a name in the directory of a cache stands for, if its metadata can be read.
def entryAt? (c : Cache) (h : Host) (name : String) : Option (Key × Metadata) := do
  let key ← keyOfName? name
  let metadata ← metadataAt? h (c.dir.join name)
  return (key, metadata)

theorem entryAt?_eq_some_iff {name : String} :
    c.entryAt? h name = some (k, m) ↔ name = k.digits ++ metaSuffix ∧ metadataAt? h (c.metaPath k) = some m := by
  unfold entryAt?
  constructor
  · intro hfound
    obtain ⟨key, hkey, hfound⟩ := Option.bind_eq_some_iff.mp hfound
    obtain ⟨metadata, hmetadata, hfound⟩ := Option.bind_eq_some_iff.mp hfound
    cases hfound
    obtain rfl := keyOfName?_eq_some_iff.mp hkey
    exact ⟨rfl, hmetadata⟩
  · rintro ⟨rfl, hmetadata⟩
    rw [keyOfName?_eq_some_iff.mpr rfl]
    change (metadataAt? h (c.metaPath k) >>= fun metadata => pure (k, metadata)) = _
    rw [hmetadata]
    rfl

theorem entries_eq_ok (hall : c.entries h = .ok all) :
    ∃ names, h.list c.dir = .ok names ∧ all = (names.filterMap (c.entryAt? h)).mergeSort entryBefore := by
  unfold entries at hall
  cases hl : h.list c.dir with
  | error fault =>
    rw [hl] at hall
    cases hall
  | ok names =>
    rw [hl] at hall
    cases hall
    exact ⟨names, rfl, rfl⟩

-- A listing shows the entries whose metadata can be read.
theorem mem_entries (hall : c.entries h = .ok all) :
    (k, m) ∈ all ↔ ∃ names, h.list c.dir = .ok names ∧ k.digits ++ metaSuffix ∈ names ∧
      metadataAt? h (c.metaPath k) = some m := by
  obtain ⟨names, hl, rfl⟩ := entries_eq_ok hall
  rw [List.mem_mergeSort, List.mem_filterMap, hl]
  constructor
  · rintro ⟨name, hname, hfound⟩
    obtain ⟨rfl, hmetadata⟩ := entryAt?_eq_some_iff.mp hfound
    exact ⟨names, rfl, hname, hmetadata⟩
  · rintro ⟨_, hnames, hname, hmetadata⟩
    cases hnames
    exact ⟨_, hname, entryAt?_eq_some_iff.mpr ⟨rfl, hmetadata⟩⟩

theorem plain_of_mem_entries (hv : h.Valid) (hall : c.entries h = .ok all) {entry : Key × Metadata}
    (hentry : entry ∈ all) : entry.1.Plain := by
  obtain ⟨names, hl, hname, -⟩ := (mem_entries hall).mp hentry
  exact .of_isFileName (hv.isFileName_of_list hl hname)

-- Each key is listed once where the tree has no place twice.
theorem entries_nodup (hs : h.tree.Single) (hall : c.entries h = .ok all) : (all.map (·.1)).Nodup := by
  obtain ⟨names, hl, rfl⟩ := entries_eq_ok hall
  have hnames : names.Nodup := by
    rw [(Host.list_eq_ok hl).2, (List.mergeSort_perm _ _).nodup_iff]
    exact hs.namesIn_nodup _
  rw [((List.mergeSort_perm _ _).map _).nodup_iff, List.map_filterMap]
  refine hnames.filterMap fun name name' key hkey hkey' => ?_
  obtain ⟨⟨k, m⟩, hentry, rfl⟩ := Option.map_eq_some_iff.mp hkey
  obtain ⟨⟨k', m'⟩, hentry', hsame⟩ := Option.map_eq_some_iff.mp hkey'
  obtain rfl : k' = k := hsame
  rw [(entryAt?_eq_some_iff.mp hentry).1, (entryAt?_eq_some_iff.mp hentry').1]

-- Entries are listed in the order of their sources, and of their keys where these are the same.
def weight (entry : Key × Metadata) : List (Nat ×ₗ String) ×ₗ String :=
  toLex (entry.2.source.weight, entry.1.digits)

theorem entryBefore_iff {a b : Key × Metadata} : entryBefore a b = true ↔ weight a ≤ weight b := by
  unfold entryBefore weight
  rw [Prod.Lex.toLex_le_toLex]
  rcases lt_trichotomy a.2.source.weight b.2.source.weight with hlt | heq | hgt
  · simp [Path.before_iff.mpr hlt, hlt]
  · have hab : ¬a.2.source.before b.2.source = true := fun h => heq.not_lt (Path.before_iff.mp h)
    have hba : ¬b.2.source.before a.2.source = true := fun h => heq.not_gt (Path.before_iff.mp h)
    rw [if_neg hab, if_neg hba, Bool.not_eq_true', decide_eq_false_iff_not, not_lt]
    exact ⟨fun h => .inr ⟨heq, h⟩, fun h => (h.resolve_left heq.not_lt).2⟩
  · have hab : ¬a.2.source.before b.2.source = true := fun h => hgt.not_gt (Path.before_iff.mp h)
    rw [if_neg hab, if_pos (Path.before_iff.mpr hgt)]
    simp [hgt.not_gt, hgt.ne']

theorem entries_sorted (hall : c.entries h = .ok all) : all.Pairwise fun a b => weight a ≤ weight b := by
  obtain ⟨names, -, rfl⟩ := entries_eq_ok hall
  refine (List.pairwise_mergeSort ?_ ?_ _).imp entryBefore_iff.mp
  · intro a b d hab hbd
    exact entryBefore_iff.mpr ((entryBefore_iff.mp hab).trans (entryBefore_iff.mp hbd))
  · intro a b
    rw [Bool.or_eq_true, entryBefore_iff, entryBefore_iff]
    exact le_total _ _

end Cache

end TemplateEngine
