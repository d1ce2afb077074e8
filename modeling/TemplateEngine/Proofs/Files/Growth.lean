import TemplateEngine.Proofs.Files.Trims

-- Writing a file makes directories first, where nothing stood before; then the file is put in its
-- place, unless that fails.
namespace TemplateEngine

theorem toUTF8_inj {text text' : String} (h : text.toUTF8 = text'.toUTF8) : text = text' :=
  String.toByteArray_inj.mp h

namespace Host

-- Only directories are new, and they stand where nothing stood.
structure Grows (h h' : Host) : Prop where
  cwd : h'.cwd = h.cwd
  valid : h.Valid → h'.Valid
  entries : ∀ l, h'.tree.entry? l = h.tree.entry? l ∨
    h.tree.entry? l = none ∧ ∃ changed, h'.tree.entry? l = some (.directory changed)

variable {h h' : Host} {l : Location}

theorem Grows.refl (h : Host) : h.Grows h := ⟨rfl, id, fun _ => .inl rfl⟩

theorem Grows.trans (h h' h'' : Host) (hg : h.Grows h') (hg' : h'.Grows h'') : h.Grows h'' := by
  refine ⟨hg'.cwd.trans hg.cwd, hg'.valid ∘ hg.valid, fun l => ?_⟩
  rcases hg'.entries l with he' | ⟨hnone', hdir⟩
  · rw [he']
    exact hg.entries l
  · rcases hg.entries l with he | ⟨-, changed, he⟩
    · exact .inr ⟨he ▸ hnone', hdir⟩
    · rw [he] at hnone'
      cases hnone'

theorem Grows.file_iff (hg : h.Grows h') (l : Location) (content : ByteArray) (changed : Instant) :
    h'.tree.entry? l = some (.file content changed) ↔ h.tree.entry? l = some (.file content changed) := by
  rcases hg.entries l with he | ⟨hnone, changed', he⟩
  · rw [he]
  · simp [hnone, he]

-- The same files stand everywhere but inside.
structure SameFiles (inside : Location → Prop) (h h' : Host) : Prop where
  cwd : h'.cwd = h.cwd
  files : ∀ l, ¬inside l → ∀ content changed,
    h'.tree.entry? l = some (.file content changed) ↔ h.tree.entry? l = some (.file content changed)

theorem Grows.sameFiles (hg : h.Grows h') : h.SameFiles (fun _ => False) h' :=
  ⟨hg.cwd, fun l _ => hg.file_iff l⟩

theorem textAt_of_file {text : String} {changed : Instant}
    (he : h.tree.entry? l = some (.file text.toUTF8 changed)) : h.textAt l = .ok text := by
  have htext : String.fromUTF8? text.toUTF8 = some text := by
    have hvalid : text.toUTF8.IsValidUTF8 := text.isValidUTF8
    unfold String.fromUTF8?
    rw [dif_pos hvalid]
    rfl
  unfold textAt
  rw [he]
  dsimp only
  rw [htext]

theorem textAt_eq_ok {text : String} (ht : h.textAt l = .ok text) :
    ∃ changed, h.tree.entry? l = some (.file text.toUTF8 changed) := by
  unfold textAt at ht
  split at ht
  · next content changed he =>
    split at ht
    · next s hutf =>
      cases ht
      refine ⟨changed, ?_⟩
      unfold String.fromUTF8? at hutf
      split at hutf
      · cases hutf
        exact he
      · cases hutf
    · cases ht
  · cases ht
  · split at ht <;> cases ht

theorem grows_set_directory (hl : h.Valid → l.Proper) (hparent : h.tree.isDirectoryAt l.parent = true)
    (hnone : h.tree.entry? l = none) (changed : Instant) :
    h.Grows { h with tree := h.tree.set l (.directory changed) } := by
  refine ⟨rfl, fun hv => ⟨hv.tree.set (hl hv) hparent (.inr ⟨changed, rfl⟩), hv.cwd⟩, fun m => ?_⟩
  dsimp only
  rw [FileTree.entry?_set]
  split
  · next hml =>
    rw [hml]
    exact .inr ⟨hnone, changed, rfl⟩
  · exact .inl rfl

-- A host with a new file, or with another one in place of one that was there.
def put (h : Host) (l : Location) (content : ByteArray) : Host :=
  { h with tree := h.tree.set l (.file content h.clock) }

@[simp] theorem put_cwd (h : Host) (l : Location) (content : ByteArray) : (h.put l content).cwd = h.cwd := rfl

@[simp] theorem put_clock (h : Host) (l : Location) (content : ByteArray) :
    (h.put l content).clock = h.clock := rfl

theorem put_entry? (h : Host) (l m : Location) (content : ByteArray) :
    (h.put l content).tree.entry? m = if m = l then some (.file content h.clock) else h.tree.entry? m :=
  FileTree.entry?_set h.tree l m _

theorem Valid.put (hv : h.Valid) (hl : l.Proper) (hparent : h.tree.isDirectoryAt l.parent = true)
    (hdir : h.tree.isDirectoryAt l = false) (content : ByteArray) : (h.put l content).Valid :=
  ⟨hv.tree.set hl hparent (.inl hdir), hv.cwd⟩

theorem put_isDirectoryAt (hdir : h.tree.isDirectoryAt l = false) (content : ByteArray) (m : Location)
    (hm : h.tree.isDirectoryAt m = true) : (h.put l content).tree.isDirectoryAt m = true := by
  rw [FileTree.isDirectoryAt_iff] at hm ⊢
  rw [Host.put_entry?, if_neg]
  · exact hm
  · rintro rfl
    rw [← FileTree.isDirectoryAt_iff, hdir] at hm
    cases hm

-- A host without what stood at a place and below.
def without (h : Host) (l : Location) : Host := { h with tree := h.tree.erase l }

theorem without_entry? (h : Host) (l m : Location) :
    (h.without l).tree.entry? m = if l <+: m then none else h.tree.entry? m :=
  FileTree.entry?_erase h.tree l m

theorem Valid.without (hv : h.Valid) (l : Location) : (h.without l).Valid := ⟨hv.tree.erase l, hv.cwd⟩

-- Nothing stands below a file.
theorem Valid.without_file_entry? (hv : h.Valid) (hdir : h.tree.isDirectoryAt l = false) (m : Location) :
    (h.without l).tree.entry? m = if m = l then none else h.tree.entry? m := by
  rw [Host.without_entry?]
  by_cases hlm : l <+: m
  · rw [if_pos hlm]
    cases he : h.tree.entry? m with
    | none => simp
    | some e => rw [hv.tree.eq_of_prefix hdir he hlm, if_pos rfl]
  · rw [if_neg hlm, if_neg fun hml : m = l => hlm (hml ▸ List.prefix_refl _)]

theorem Valid.without_file_isDirectoryAt (hv : h.Valid) (hdir : h.tree.isDirectoryAt l = false)
    (m : Location) (hm : h.tree.isDirectoryAt m = true) : (h.without l).tree.isDirectoryAt m = true := by
  rw [FileTree.isDirectoryAt_iff] at hm ⊢
  rw [hv.without_file_entry? hdir, if_neg]
  · exact hm
  · rintro rfl
    rw [← FileTree.isDirectoryAt_iff, hdir] at hm
    cases hm

end Host

namespace Action

theorem makeDirectory_grows (p : Path) : Keeps Host.Grows (makeDirectory p) := by
  intro h
  rw [makeDirectory_run]
  cases hv : h.tree.vacancy h.cwd p with
  | error fault =>
    dsimp only
    split <;> exact Host.Grows.refl h
  | ok l =>
    obtain ⟨hroom, hnone⟩ := FileTree.vacancy_eq_ok hv
    exact Host.grows_set_directory (fun hvalid => hroom.proper hvalid.cwd) hroom.parent hnone h.clock

theorem makeFirst_grows (dirs : List Path) : Keeps Host.Grows (makeFirst dirs) := by
  induction dirs with
  | nil => exact Host.Grows.refl
  | cons p dirs ih =>
    unfold makeFirst
    refine Keeps.bind Host.Grows.trans Host.Grows.refl fun h => ?_
    dsimp only
    split
    · exact Keeps.bind Host.Grows.trans ih fun _ => makeDirectory_grows p
    · exact makeDirectory_grows p

theorem ensureDirectory_grows (p : Path) : Keeps Host.Grows (ensureDirectory p) := by
  unfold ensureDirectory makeDirectories
  refine Keeps.bind Host.Grows.trans Host.Grows.refl fun present => ?_
  split
  · refine Keeps.bind Host.Grows.trans Host.Grows.refl fun directory => ?_
    split <;> exact Host.Grows.refl
  · refine Keeps.adapt _ ?_
    split
    · exact Host.Grows.refl
    · exact makeFirst_grows _

theorem writeFile_run (p : Path) (content : ByteArray) (h : Host) :
    (writeFile p content).run h =
      match (ensureDirectory p.directory).run h with
      | (.error message, h') => (.error message, h')
      | (.ok _, h') =>
        match h'.tree.target h'.cwd p with
        | .error _ => (.error s!"Failed to rename temp file to: {p.text}", h')
        | .ok l =>
          if h'.tree.isDirectoryAt l then (.error s!"Failed to rename temp file to: {p.text}", h')
          else (.ok (), { h' with tree := h'.tree.set l (.file content h'.clock) }) := by
  unfold writeFile
  rw [run_bind]
  cases (ensureDirectory p.directory).run h with
  | mk result h' =>
    cases result with
    | error message => rfl
    | ok _ =>
      dsimp only
      rw [run_get_bind]
      cases h'.tree.target h'.cwd p with
      | error fault => rfl
      | ok l => cases hdir : h'.tree.isDirectoryAt l <;> simp [hdir] <;> rfl

theorem writeFile_eq_ok {p : Path} {content : ByteArray} {h h' : Host}
    (hrun : (writeFile p content).run h = (.ok (), h')) :
    ∃ t l, (ensureDirectory p.directory).run h = (.ok (), t) ∧ t.tree.target t.cwd p = .ok l ∧
      t.tree.isDirectoryAt l = false ∧ h' = t.put l content := by
  rw [writeFile_run] at hrun
  cases hensure : (ensureDirectory p.directory).run h with
  | mk ensured t =>
    rw [hensure] at hrun
    cases ensured with
    | error message => cases hrun
    | ok _ =>
      dsimp only at hrun
      cases htarget : t.tree.target t.cwd p with
      | error fault =>
        rw [htarget] at hrun
        cases hrun
      | ok l =>
        rw [htarget] at hrun
        dsimp only at hrun
        split at hrun
        · cases hrun
        · next hdir => exact ⟨t, l, rfl, htarget, by simpa using hdir, (Prod.mk.inj hrun).2.symm⟩

-- A file is put in its place after directories were made, or no more than that is done.
theorem writeFile_cases {p : Path} {content : ByteArray} {h h' : Host} {result : Except String Unit}
    (hrun : (writeFile p content).run h = (result, h')) :
    (∃ message, result = .error message ∧ h.Grows h') ∨
      result = .ok () ∧ ∃ t, h.Grows t ∧ h' = t.put (FileTree.place h.cwd p) content ∧
        (t.Valid → h'.Valid) := by
  have hgrows := ensureDirectory_grows p.directory h
  cases result with
  | ok _ =>
    obtain ⟨t, l, hensure, htarget, hdir, rfl⟩ := writeFile_eq_ok hrun
    rw [hensure] at hgrows
    have hroom := FileTree.target_eq_ok htarget
    rw [hroom.place, hgrows.cwd]
    refine .inr ⟨rfl, t, hgrows, rfl, fun hv => ?_⟩
    exact hv.put (hgrows.cwd ▸ hroom.place ▸ hroom.proper hv.cwd) (hgrows.cwd ▸ hroom.place ▸ hroom.parent)
      (hgrows.cwd ▸ hroom.place ▸ hdir) content
  | error message =>
    rw [writeFile_run] at hrun
    refine .inl ⟨message, rfl, ?_⟩
    cases hensure : (ensureDirectory p.directory).run h with
    | mk ensured t =>
      rw [hensure] at hgrows hrun
      cases ensured with
      | error _ => exact (Prod.mk.inj hrun).2 ▸ hgrows
      | ok _ =>
        dsimp only at hrun
        split at hrun
        · exact (Prod.mk.inj hrun).2 ▸ hgrows
        · split at hrun
          · exact (Prod.mk.inj hrun).2 ▸ hgrows
          · cases hrun

-- A file that is there is removed and nothing else, or nothing at all.
theorem removeFile_cases {p : Path} {h h' : Host} {result : Except String Bool}
    (hrun : (removeFile p).run h = (result, h')) :
    h' = h ∧ (result = .ok false → h.resolve p = .error .missing) ∧ result ≠ .ok true ∨
      result = .ok true ∧ h.resolve p = .ok (FileTree.place h.cwd p) ∧
        h.tree.isDirectoryAt (FileTree.place h.cwd p) = false ∧ h' = h.without (FileTree.place h.cwd p) := by
  unfold removeFile at hrun
  rw [run_get_bind] at hrun
  cases hr : h.resolve p with
  | error fault =>
    rw [hr] at hrun
    left
    cases fault <;> (obtain ⟨rfl, rfl⟩ := Prod.mk.inj hrun; simp)
  | ok l =>
    rw [hr] at hrun
    dsimp only at hrun
    split at hrun
    · obtain ⟨rfl, rfl⟩ := Prod.mk.inj hrun
      simp
    · next hdir =>
      obtain ⟨rfl, rfl⟩ := Prod.mk.inj hrun
      rw [← (FileTree.resolve_eq_ok hr).2]
      exact .inr ⟨rfl, rfl, by simpa using hdir, rfl⟩

end Action

end TemplateEngine
