import TemplateEngine.Proofs.Cache.Reading

-- Caches in which every file is one that may be there. What an operation does to such a cache depends
-- on the names of its files alone: on how long they are.
namespace TemplateEngine.Cache

variable {c : Cache} {base h h' : Host} {may : Location → ByteArray → Prop} {l : Location} {k : Key}
  {m : Metadata} {source : Path} {name code text : String} {content : ByteArray} {changed : Instant}

-- A host that is another one but for the cache, where nothing stands but the directory of indexes and
-- files with content that they may have.
structure Tidy (c : Cache) (base : Host) (may : Location → ByteArray → Prop) (h : Host) : Prop where
  ready : c.Ready h
  same : base.SameBut (c.Owns base.cwd) h
  home : ∀ entry, h.tree.entry? (c.indexHome base.cwd) = some entry → entry.isFile = false
  files : ∀ l entry, c.Owns base.cwd l → l ≠ c.indexHome base.cwd → h.tree.entry? l = some entry →
    ∃ content changed, entry = .file content changed ∧ may l content

theorem Ready.tidy (hr : c.Ready h) (hvacant : c.Vacant h) : c.Tidy h may h := by
  refine ⟨hr, .refl _ h, fun entry he => ?_, fun l entry hl _ he => ?_⟩
  · rw [hvacant _ owns_indexHome] at he
    cases he
  · rw [hvacant l hl] at he
    cases he

theorem Tidy.isDirectoryAt_eq (ht : c.Tidy base may h) (hl : c.Owns base.cwd l)
    (hhome : l ≠ c.indexHome base.cwd) : h.tree.isDirectoryAt l = false := by
  rw [Bool.eq_false_iff]
  intro hdir
  rcases FileTree.isDirectoryAt_iff.mp hdir with rfl | ⟨changed, he⟩
  · exact hl.ne_nil rfl
  · obtain ⟨content, _, hfile, -⟩ := ht.files l _ hl hhome he
    cases hfile

-- Nothing else changes where a file of the cache is lost or has new content.
theorem Ready.without_file (hr : c.Ready h) (hl : c.Owns h.cwd l)
    (he : h.tree.entry? l = some (.file content changed)) :
    c.Ready (h.without l) ∧ ∀ k, (h.without l).tree.entry? k = if k = l then none else h.tree.entry? k := by
  have hdir := FileTree.isDirectoryAt_of_file he hl.ne_nil
  have hentries := hr.valid.without_file_entry? hdir
  refine ⟨hr.of_directories (hr.valid.without _) rfl (hr.valid.without_file_isDirectoryAt hdir) ?_, hentries⟩
  rw [hentries, if_neg hl.ne_root.symm]

theorem Ready.put_file (hr : c.Ready h) (hl : c.Owns h.cwd l)
    (he : h.tree.entry? l = some (.file content changed)) (content' : ByteArray) :
    c.Ready (h.put l content') := by
  have hdir := FileTree.isDirectoryAt_of_file he hl.ne_nil
  have hvalid := hr.valid.put (hr.valid.tree.proper l _ he) (hr.valid.tree.parent l _ he) hdir content'
  refine hr.of_directories hvalid rfl (Host.put_isDirectoryAt hdir content') ?_
  rw [Host.put_entry?, if_neg hl.ne_root.symm]

namespace Tidy

theorem tick (ht : c.Tidy base may h) (now : Instant) : c.Tidy base may { h with clock := now } :=
  ⟨ht.ready.tick now, ⟨ht.same.cwd, ht.same.entries⟩, ht.home, ht.files⟩

theorem lose (ht : c.Tidy base may h) (hl : c.Owns base.cwd l)
    (he : h.tree.entry? l = some (.file content changed)) : c.Tidy base may (h.without l) := by
  rw [← ht.same.cwd] at hl
  obtain ⟨hready, hentries⟩ := ht.ready.without_file hl he
  rw [ht.same.cwd] at hl
  have hkept : ∀ k entry, (h.without l).tree.entry? k = some entry → h.tree.entry? k = some entry := by
    intro k entry hk
    rw [hentries] at hk
    split at hk
    · cases hk
    · exact hk
  refine ⟨hready, ⟨ht.same.cwd, fun k hk => ?_⟩, fun entry he => ht.home entry (hkept _ _ he),
    fun k entry hk hhome he => ht.files k entry hk hhome (hkept _ _ he)⟩
  have hne : k ≠ l := by
    rintro rfl
    exact hk hl
  rw [hentries, if_neg hne]
  exact ht.same.entries k hk

theorem put (ht : c.Tidy base may h) (hl : c.Owns base.cwd l) (hhome : l ≠ c.indexHome base.cwd)
    (hmay : may l content) (hr : c.Ready (h.put l content)) : c.Tidy base may (h.put l content) := by
  refine ⟨hr, ⟨ht.same.cwd, fun k hk => ?_⟩, fun entry he => ?_, fun k entry hk hne he => ?_⟩
  · have hne : k ≠ l := by
      rintro rfl
      exact hk hl
    rw [Host.put_entry?, if_neg hne]
    exact ht.same.entries k hk
  · rw [Host.put_entry?, if_neg hhome.symm] at he
    exact ht.home entry he
  · rw [Host.put_entry?] at he
    split at he
    · next heq =>
      cases he
      exact ⟨content, _, rfl, heq ▸ hmay⟩
    · exact ht.files k entry hk hne he

theorem spoil (ht : c.Tidy base may h) (hl : c.Owns base.cwd l) (hhome : l ≠ c.indexHome base.cwd)
    {content' : ByteArray} (he : h.tree.entry? l = some (.file content' changed)) (hmay : may l content) :
    c.Tidy base may (h.put l content) :=
  ht.put hl hhome hmay (ht.ready.put_file (ht.same.cwd ▸ hl) he content)

theorem withIndexHome (ht : c.Tidy base may h) : c.Tidy base may (c.withIndexHome h) := by
  have hentry : ∀ k, (c.withIndexHome h).tree.entry? k =
      if k = c.indexHome base.cwd ∧ h.tree.entry? k = none then some (.directory h.clock)
      else h.tree.entry? k := fun k => ht.same.cwd ▸ c.withIndexHome_entry? h k
  refine ⟨ht.ready.withIndexHome, ⟨(c.withIndexHome_cwd h).trans ht.same.cwd, fun k hk => ?_⟩,
    fun entry he => ?_, fun k entry hk hne he => ?_⟩
  · have hne : k ≠ c.indexHome base.cwd := by
      rintro rfl
      exact hk owns_indexHome
    rw [hentry, if_neg fun h => hne h.1]
    exact ht.same.entries k hk
  · rw [hentry] at he
    split at he
    · cases he
      rfl
    · exact ht.home entry he
  · rw [hentry, if_neg (fun h => hne h.1)] at he
    exact ht.files k entry hk hne he

-- The directory of indexes is no file.
theorem not_file_home (ht : c.Tidy base may h) (content : ByteArray) (changed : Instant) :
    h.tree.entry? (c.indexHome h.cwd) ≠ some (.file content changed) := by
  intro he
  rw [ht.same.cwd] at he
  cases ht.home _ he

end Tidy

-- Whether the index of a source may have its name, as far as lengths go.
def FitsIndex (c : Cache) (source : Path) : Prop :=
  FileTree.unusable? (c.indexPath source) = none ∧ (indexName source).utf8ByteSize ≤ FileTree.maxName

instance (c : Cache) (source : Path) : Decidable (c.FitsIndex source) := inferInstanceAs (Decidable (_ ∧ _))

theorem Fits.of_le (hfits : c.Fits name) {other : String} (hname : IsFileName name) (hother : IsFileName other)
    (hle : other.utf8ByteSize ≤ name.utf8ByteSize) : c.Fits other :=
  ⟨Path.unusable?_join_mono hname hother hle hfits.1, Nat.le_trans hle hfits.2⟩

theorem fits_code_iff_meta (hk : k.Plain) : c.Fits (k.digits ++ codeSuffix) ↔ c.Fits (k.digits ++ metaSuffix) := by
  have hsize := size_code_eq_meta k
  exact ⟨fun h => h.of_le hk.isFileName_code hk.isFileName_meta (Nat.le_of_eq hsize.symm),
    fun h => h.of_le hk.isFileName_meta hk.isFileName_code (Nat.le_of_eq hsize)⟩

-- Where there is room for an entry there is room for the directory of indexes.
theorem Fits.usable_indexDir (hfits : c.Fits (k.digits ++ codeSuffix)) (hk : k.Plain) :
    FileTree.unusable? c.indexDir = none := by
  have hindex : IsFileName "index" := by decide
  have hsize : "index".utf8ByteSize ≤ (k.digits ++ codeSuffix).utf8ByteSize := by
    rw [String.utf8ByteSize_append]
    exact Nat.le_trans (by decide) (Nat.le_add_left codeSuffix.utf8ByteSize _)
  exact (hfits.of_le hk.isFileName_code hindex hsize).1

-- What storing an entry gives in a cache that is in order.
def stored (c : Cache) (k : Key) (source : Path) : Except Failure Unit :=
  if c.Fits (k.digits ++ codeSuffix) then
    if c.FitsIndex source then .ok () else .error (misplaced (c.indexPath source))
  else .error (misplaced (c.codePath k))

theorem fits_of_lookup (hr : c.Ready h) (hk : k.Plain) (hl : c.lookup h k ≠ .missing) :
    c.Fits (k.digits ++ codeSuffix) := by
  unfold lookup at hl
  split at hl
  · next hpresent => exact (fits_code_iff_meta hk).mpr ((hr.present_child_iff hk.isFileName_meta).mp hpresent).1
  · exact absurd rfl hl

namespace Tidy

theorem write_child (ht : c.Tidy base may h) (hname : IsFileName name) (hown : IsOwnName name)
    (hindex : name ≠ "index") (hmay : may (c.root base.cwd ++ [name]) text.toUTF8) :
    Yields (c.Tidy base may) (Change.write (c.dir.join name) text).make
      (if c.Fits name then .ok () else .error (misplaced (c.dir.join name))) h := by
  have hl : c.Owns base.cwd (c.root base.cwd ++ [name]) := owns_child hown
  have hhome : c.root base.cwd ++ [name] ≠ c.indexHome base.cwd := fun heq =>
    hindex (List.singleton_inj.mp (List.append_cancel_left heq))
  have hdir := ht.isDirectoryAt_eq hl hhome
  have hrun := ht.ready.write_child hname text
  rw [ht.same.cwd] at hrun
  by_cases hfits : c.Fits name
  · rw [if_pos ⟨hfits, hdir⟩] at hrun
    rw [if_pos hfits]
    refine ⟨_, hrun, ht.put hl hhome hmay ?_⟩
    rw [← ht.same.cwd] at hdir ⊢
    exact ht.ready.put_child hname hdir _
  · rw [if_neg fun h => hfits h.1] at hrun
    rw [if_neg hfits]
    exact ⟨h, hrun, ht⟩

theorem write_index (ht : c.Tidy base may h) (hu : FileTree.unusable? c.indexDir = none)
    (hmay : may (c.indexPlace base.cwd source) text.toUTF8) :
    Yields (c.Tidy base may) (Change.write (c.indexPath source) text).make
      (if c.FitsIndex source then .ok () else .error (misplaced (c.indexPath source))) h := by
  have ht' := ht.withIndexHome
  have hdir := ht'.isDirectoryAt_eq (owns_index source) (indexPlace_ne_indexHome source)
  have hrun := ht.ready.write_index hu source text ht.not_file_home
  rw [ht.same.cwd] at hrun
  by_cases hfits : c.FitsIndex source
  · rw [if_pos ⟨hfits.1, hfits.2, hdir⟩] at hrun
    rw [if_pos hfits]
    refine ⟨_, hrun, ht'.put (owns_index source) (indexPlace_ne_indexHome source) hmay ?_⟩
    obtain ⟨changed, hhome⟩ := withIndexHome_directory ht.not_file_home
    rw [← c.withIndexHome_cwd h] at hhome
    rw [← ht'.same.cwd] at hdir ⊢
    exact ht'.ready.put_index hhome hdir _
  · rw [if_neg fun h => hfits ⟨h.1, h.2.1⟩] at hrun
    rw [if_neg hfits]
    exact ⟨_, hrun, ht'⟩

theorem store (ht : c.Tidy base may h) (hk : k.Plain) {resolutions : List Compile.Resolution}
    (hcode : may (c.codePlace base.cwd k) code.toUTF8) (hmeta : may (c.metaPlace base.cwd k) m.text.toUTF8)
    (hindex : may (c.indexPlace base.cwd m.source)
      (Index.text ⟨m.source, m.dependencies, resolutions⟩).toUTF8) :
    Yields (c.Tidy base may) (c.store k code m resolutions) (c.stored k m.source) h := by
  have hfirst := ht.write_child hk.isFileName_code (isOwnName_code k) (append_ne_index (by decide)) hcode
  unfold stored
  by_cases hfits : c.Fits (k.digits ++ codeSuffix)
  · rw [if_pos hfits] at hfirst ⊢
    refine hfirst.bind fun t ht => ?_
    have hsecond := ht.write_child hk.isFileName_meta (isOwnName_meta k) (append_ne_index (by decide)) hmeta
    rw [if_pos ((fits_code_iff_meta hk).mp hfits)] at hsecond
    refine hsecond.bind fun t ht => ?_
    have hthird := ht.write_index (hfits.usable_indexDir hk) hindex
    by_cases hfitsIndex : c.FitsIndex m.source
    · rw [if_pos hfitsIndex] at hthird ⊢
      exact hthird.bind fun t ht => .pure ht ()
    · rw [if_neg hfitsIndex] at hthird ⊢
      exact hthird.bind_error
  · rw [if_neg hfits] at hfirst ⊢
    exact hfirst.bind_error

theorem remove_child (ht : c.Tidy base may h) (hname : IsFileName name) (hown : IsOwnName name)
    (hindex : name ≠ "index") (hfits : c.Fits name) :
    Yields (c.Tidy base may) (Change.remove (c.dir.join name)).make (.ok ()) h := by
  have hl : c.Owns base.cwd (c.root base.cwd ++ [name]) := owns_child hown
  have hhome : c.root base.cwd ++ [name] ≠ c.indexHome base.cwd := fun heq =>
    hindex (List.singleton_inj.mp (List.append_cancel_left heq))
  have hrun := ht.ready.remove_child hname hfits
  rw [ht.same.cwd] at hrun
  cases he : h.tree.entry? (c.root base.cwd ++ [name]) with
  | none =>
    rw [he] at hrun
    exact ⟨h, hrun, ht⟩
  | some entry =>
    obtain ⟨content, changed, rfl, -⟩ := ht.files _ _ hl hhome he
    rw [he] at hrun
    exact ⟨_, hrun, ht.lose hl he⟩

theorem remove (ht : c.Tidy base may h) (hk : k.Plain) (hfits : c.Fits (k.digits ++ codeSuffix)) :
    Yields (c.Tidy base may) (c.remove k) (.ok ()) h := by
  have hfirst := ht.remove_child hk.isFileName_meta (isOwnName_meta k) (append_ne_index (by decide))
    ((fits_code_iff_meta hk).mp hfits)
  refine hfirst.bind fun t ht => ?_
  have hlast := ht.remove_child hk.isFileName_code (isOwnName_code k) (append_ne_index (by decide)) hfits
  exact hlast.bind fun t ht => .pure ht ()

end Tidy

end TemplateEngine.Cache
