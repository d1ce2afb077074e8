import TemplateEngine.Proofs.Cache.Names
import TemplateEngine.Proofs.Files.Below

-- The places in the directory of a cache that are its own. A directory may hold other files too, be
-- they templates: those are told apart by their names.
namespace TemplateEngine.Cache

variable {c : Cache} {h h' : Host} {cwd l m : Location} {k : Key}

def IsOwnName (n : String) : Prop :=
  n = "index" ∨ codeSuffix.toList <:+ n.toList ∨ metaSuffix.toList <:+ n.toList

instance (n : String) : Decidable (IsOwnName n) := inferInstanceAs (Decidable (_ ∨ _ ∨ _))

-- Whether a place is one of the cache: under a name of its own, or below that.
def Owns (c : Cache) (cwd l : Location) : Prop := ∃ n, IsOwnName n ∧ c.root cwd ++ [n] <+: l

theorem Owns.mono (hl : c.Owns cwd l) (hlm : l <+: m) : c.Owns cwd m := by
  obtain ⟨n, hn, hl⟩ := hl
  exact ⟨n, hn, hl.trans hlm⟩

-- All places of a cache are below its directory.
theorem Owns.ne_nil (hl : c.Owns cwd l) : l ≠ [] := by
  rintro rfl
  obtain ⟨n, -, hprefix⟩ := hl
  simp at hprefix

theorem Owns.ne_root (hl : c.Owns cwd l) : l ≠ c.root cwd := by
  rintro rfl
  obtain ⟨n, -, hprefix⟩ := hl
  have hlength := hprefix.length_le
  rw [List.length_append, List.length_singleton] at hlength
  omega

theorem owns_iff : c.Owns cwd l ↔
    c.root cwd <+: l ∧ (l.drop (c.root cwd).length).head?.any (fun n => decide (IsOwnName n)) = true := by
  constructor
  · rintro ⟨n, hn, rest, rfl⟩
    simp [hn, List.append_assoc]
  · rintro ⟨⟨rest, rfl⟩, hany⟩
    rw [List.drop_left] at hany
    cases rest with
    | nil => cases hany
    | cons n rest =>
      have hn : IsOwnName n := by simpa using hany
      exact ⟨n, hn, rest, by simp⟩

instance (c : Cache) (cwd l : Location) : Decidable (c.Owns cwd l) := decidable_of_iff' _ owns_iff

-- Whether nothing is in the cache.
def Vacant (c : Cache) (h : Host) : Prop := ∀ l, c.Owns h.cwd l → h.tree.entry? l = none

theorem vacant_of_entries (hentries : ∀ p ∈ h.tree.entries, ¬c.Owns h.cwd p.1) : c.Vacant h := by
  intro l hl
  cases he : h.tree.entry? l with
  | none => rfl
  | some e => exact absurd hl (hentries _ (FileTree.mem_entries_of_some he))

theorem owns_child {n : String} (hn : IsOwnName n) : c.Owns cwd (c.root cwd ++ [n]) :=
  ⟨n, hn, List.prefix_refl _⟩

theorem isOwnName_code (k : Key) : IsOwnName (k.digits ++ codeSuffix) :=
  .inr (.inl ⟨k.digits.toList, (String.toList_append ..).symm⟩)

theorem isOwnName_meta (k : Key) : IsOwnName (k.digits ++ metaSuffix) :=
  .inr (.inr ⟨k.digits.toList, (String.toList_append ..).symm⟩)

theorem isOwnName_index : IsOwnName "index" := .inl rfl

def indexName (source : Path) : String := digest source.text ++ ".json"

theorem Key.Plain.isFileName_code (hk : k.Plain) : IsFileName (k.digits ++ codeSuffix) :=
  isFileName_append hk.slash hk.nul codeSuffix_isFileName (by decide)

theorem Key.Plain.isFileName_meta (hk : k.Plain) : IsFileName (k.digits ++ metaSuffix) :=
  isFileName_append hk.slash hk.nul (by decide) (by decide)

theorem isFileName_indexName (source : Path) : IsFileName (indexName source) :=
  isFileName_append (digest_plain _).1 (digest_plain _).2 (by decide) (by decide)

-- Names of different kinds are different, and those of one kind tell the key.
theorem suffix_ne (stem stem' : String) : stem ++ codeSuffix ≠ stem' ++ metaSuffix := by
  intro h
  rw [← String.toList_inj, String.toList_append, String.toList_append] at h
  have hsuffix := (List.append_inj' h (by decide)).2
  exact absurd hsuffix (by decide)

theorem stem_eq {stem stem' suffix : String} (h : stem ++ suffix = stem' ++ suffix) : stem = stem' := by
  rw [← String.toList_inj, String.toList_append, String.toList_append] at h
  exact String.toList_inj.mp (List.append_cancel_right h)

theorem size_code_eq_meta (k : Key) :
    (k.digits ++ codeSuffix).utf8ByteSize = (k.digits ++ metaSuffix).utf8ByteSize := by
  rw [String.utf8ByteSize_append, String.utf8ByteSize_append]
  rfl

-- The places of the files of an entry and of an index, and of the directory of all indexes.
def codePlace (c : Cache) (cwd : Location) (k : Key) : Location := c.root cwd ++ [k.digits ++ codeSuffix]

def metaPlace (c : Cache) (cwd : Location) (k : Key) : Location := c.root cwd ++ [k.digits ++ metaSuffix]

def indexHome (c : Cache) (cwd : Location) : Location := c.root cwd ++ ["index"]

def indexPlace (c : Cache) (cwd : Location) (source : Path) : Location :=
  c.indexHome cwd ++ [indexName source]

theorem place_codePath_eq (c : Cache) (cwd : Location) (hk : k.Plain) :
    FileTree.place cwd (c.codePath k) = c.codePlace cwd k := place_codePath c cwd hk

theorem place_metaPath_eq (c : Cache) (cwd : Location) (hk : k.Plain) :
    FileTree.place cwd (c.metaPath k) = c.metaPlace cwd k := place_metaPath c cwd hk

theorem place_indexPath_eq (c : Cache) (cwd : Location) (source : Path) :
    FileTree.place cwd (c.indexPath source) = c.indexPlace cwd source := by
  rw [place_indexPath, indexPlace, indexHome, List.append_assoc]
  rfl

theorem codePlace_inj {k' : Key} (h : c.codePlace cwd k = c.codePlace cwd k') : k = k' := by
  have hname := List.singleton_inj.mp (List.append_cancel_left h)
  exact congrArg Key.mk (stem_eq hname)

theorem metaPlace_inj {k' : Key} (h : c.metaPlace cwd k = c.metaPlace cwd k') : k = k' := by
  have hname := List.singleton_inj.mp (List.append_cancel_left h)
  exact congrArg Key.mk (stem_eq hname)

theorem codePlace_ne_metaPlace (k k' : Key) : c.codePlace cwd k ≠ c.metaPlace cwd k' := by
  intro h
  exact suffix_ne _ _ (List.singleton_inj.mp (List.append_cancel_left h))

-- Nothing of an entry is below the directory of indexes.
theorem not_indexHome_prefix_child {n : String} (hn : n ≠ "index") :
    ¬c.indexHome cwd <+: c.root cwd ++ [n] := by
  intro h
  exact hn (List.singleton_inj.mp (List.append_cancel_left (h.eq_of_length (by simp [indexHome])))).symm

theorem append_ne_index {stem suffix : String} (hlong : 5 < suffix.length) :
    stem ++ suffix ≠ "index" := by
  intro h
  have hlength := congrArg String.length h
  rw [String.length_append] at hlength
  have hindex : "index".length = 5 := rfl
  omega

theorem not_indexHome_prefix_code (k : Key) : ¬c.indexHome cwd <+: c.codePlace cwd k :=
  not_indexHome_prefix_child (append_ne_index (by decide))

theorem not_indexHome_prefix_meta (k : Key) : ¬c.indexHome cwd <+: c.metaPlace cwd k :=
  not_indexHome_prefix_child (append_ne_index (by decide))

theorem codePlace_ne_indexHome (k : Key) : c.codePlace cwd k ≠ c.indexHome cwd := by
  intro h
  have hnot : ¬c.indexHome cwd <+: c.codePlace cwd k := not_indexHome_prefix_code k
  rw [h] at hnot
  exact hnot (List.prefix_refl _)

theorem metaPlace_ne_indexHome (k : Key) : c.metaPlace cwd k ≠ c.indexHome cwd := by
  intro h
  have hnot : ¬c.indexHome cwd <+: c.metaPlace cwd k := not_indexHome_prefix_meta k
  rw [h] at hnot
  exact hnot (List.prefix_refl _)

theorem indexPlace_ne_indexHome (source : Path) : c.indexPlace cwd source ≠ c.indexHome cwd := by
  simp [indexPlace]

theorem indexHome_prefix_index (source : Path) : c.indexHome cwd <+: c.indexPlace cwd source :=
  List.prefix_append _ _

theorem codePlace_ne_indexPlace (k : Key) (source : Path) : c.codePlace cwd k ≠ c.indexPlace cwd source := by
  intro h
  have hnot : ¬c.indexHome cwd <+: c.codePlace cwd k := not_indexHome_prefix_code k
  rw [h] at hnot
  exact hnot (indexHome_prefix_index source)

theorem metaPlace_ne_indexPlace (k : Key) (source : Path) : c.metaPlace cwd k ≠ c.indexPlace cwd source := by
  intro h
  have hnot : ¬c.indexHome cwd <+: c.metaPlace cwd k := not_indexHome_prefix_meta k
  rw [h] at hnot
  exact hnot (indexHome_prefix_index source)

theorem owns_code (k : Key) : c.Owns cwd (c.codePlace cwd k) := owns_child (isOwnName_code k)

theorem owns_meta (k : Key) : c.Owns cwd (c.metaPlace cwd k) := owns_child (isOwnName_meta k)

theorem owns_indexHome : c.Owns cwd (c.indexHome cwd) := owns_child isOwnName_index

theorem owns_index (source : Path) : c.Owns cwd (c.indexPlace cwd source) :=
  owns_indexHome.mono (indexHome_prefix_index source)

end TemplateEngine.Cache
