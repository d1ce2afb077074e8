import TemplateEngine.Proofs.Files.Changes

-- Removing files. Directories stay, so paths to the files that are left lead there as before.
namespace TemplateEngine

namespace FileTree

theorem isDirectoryAt_of_step {t : FileTree} {l m : Location} {name : String}
    (h : t.step l name = .ok m) : t.isDirectoryAt l = true := (step_eq_ok_iff.mp h).1

theorem Valid.entry?_of_step {t : FileTree} (hv : t.Valid) {l m : Location} {name : String}
    (h : t.step l name = .ok m) : t.isDirectoryAt m = true ∨ ∃ e, t.entry? m = some e := by
  obtain ⟨hl, rfl, hname | ⟨-, he⟩⟩ := step_eq_ok_iff.mp h
  · left
    have hup : t.isDirectoryAt l.parent = true := by
      rcases isDirectoryAt_iff.mp hl with rfl | ⟨changed, he⟩
      · rfl
      · exact hv.parent l _ he
    simp only [List.mem_cons, List.not_mem_nil, or_false] at hname
    rcases hname with rfl | rfl | rfl
    · simpa [lexicalStep] using hl
    · simpa [lexicalStep] using hl
    · simpa [lexicalStep] using hup
  · exact .inr (Option.isSome_iff_exists.mp he)

theorem Valid.entry?_of_walk {t : FileTree} (hv : t.Valid) {names : List String} {l m : Location}
    (hl : t.isDirectoryAt l = true ∨ ∃ e, t.entry? l = some e) (h : t.walk l names = .ok m) :
    t.isDirectoryAt m = true ∨ ∃ e, t.entry? m = some e := by
  induction names generalizing l with
  | nil =>
    cases h
    exact hl
  | cons name names ih =>
    obtain ⟨k, hs, hw⟩ := walk_cons_eq_ok h
    exact ih (hv.entry?_of_step hs) hw

theorem resolve_walk {t : FileTree} {cwd l : Location} {p : Path} (h : t.resolve cwd p = .ok l) :
    ∃ name names, stepNames p = name :: names ∧ t.walk (start cwd p) (name :: names) = .ok l := by
  unfold resolve at h
  split at h
  · cases h
  cases hn : stepNames p with
  | nil =>
    rw [Path.stepNames_eq, List.map_eq_nil_iff] at hn
    exact absurd hn (List.splitOn_ne_nil _ _)
  | cons name names =>
    rw [hn] at h
    exact ⟨name, names, rfl, h⟩

theorem Valid.entry?_of_resolve {t : FileTree} (hv : t.Valid) {cwd l : Location} {p : Path}
    (h : t.resolve cwd p = .ok l) : t.isDirectoryAt l = true ∨ ∃ e, t.entry? l = some e := by
  obtain ⟨name, names, -, hw⟩ := resolve_walk h
  obtain ⟨m, hs, -⟩ := walk_cons_eq_ok hw
  exact hv.entry?_of_walk (.inl (isDirectoryAt_of_step hs)) hw

-- Only the root may stand without an entry.
theorem Valid.eq_nil_of_resolve {t : FileTree} (hv : t.Valid) {cwd l : Location} {p : Path}
    (h : t.resolve cwd p = .ok l) (he : t.entry? l = none) : l = [] := by
  rcases hv.entry?_of_resolve h with hdir | ⟨e, he'⟩
  · rcases isDirectoryAt_iff.mp hdir with hnil | ⟨changed, he'⟩
    · exact hnil
    · rw [he] at he'
      cases he'
  · rw [he] at he'
    cases he'

end FileTree

namespace Host

-- Some files are gone, all of them from places inside; `inside` is told the working directory.
structure Trims (inside : Location → Location → Prop) (h h' : Host) : Prop where
  cwd : h'.cwd = h.cwd
  clock : h'.clock = h.clock
  entries : ∀ l, h'.tree.entry? l = h.tree.entry? l ∨
    h'.tree.entry? l = none ∧ h.tree.isDirectoryAt l = false ∧ inside h.cwd l

variable {inside : Location → Location → Prop} {h h' : Host}

theorem Trims.refl (inside : Location → Location → Prop) (h : Host) : h.Trims inside h :=
  ⟨rfl, rfl, fun _ => .inl rfl⟩

theorem Trims.isDirectoryAt (ht : h.Trims inside h') (l : Location) :
    h'.tree.isDirectoryAt l = h.tree.isDirectoryAt l := by
  rcases ht.entries l with he | ⟨he, hdir, -⟩
  · unfold FileTree.isDirectoryAt
    rw [he]
  · rw [hdir, Bool.eq_false_iff]
    intro hdir'
    rcases FileTree.isDirectoryAt_iff.mp hdir' with rfl | ⟨changed, he'⟩
    · exact absurd hdir (by simp [FileTree.isDirectoryAt])
    · rw [he] at he'
      cases he'

theorem Trims.trans {h'' : Host} (ht : h.Trims inside h') (ht' : h'.Trims inside h'') :
    h.Trims inside h'' := by
  refine ⟨ht'.cwd.trans ht.cwd, ht'.clock.trans ht.clock, fun l => ?_⟩
  rcases ht'.entries l with he' | ⟨he', hdir', hin'⟩
  · rw [he']
    exact ht.entries l
  · rw [ht.isDirectoryAt] at hdir'
    rw [ht.cwd] at hin'
    exact .inr ⟨he', hdir', hin'⟩

theorem Trims.mono {inside' : Location → Location → Prop} (ht : h.Trims inside h')
    (hin : ∀ l, inside h.cwd l → inside' h.cwd l) : h.Trims inside' h' :=
  ⟨ht.cwd, ht.clock, fun l => (ht.entries l).imp_right fun ⟨he, hdir, hl⟩ => ⟨he, hdir, hin l hl⟩⟩

theorem Trims.entry?_of_some (ht : h.Trims inside h') {l : Location} {e : Entry}
    (he : h'.tree.entry? l = some e) : h.tree.entry? l = some e := by
  rcases ht.entries l with hl | ⟨hl, -⟩
  · rw [← hl, he]
  · rw [hl] at he
    cases he

theorem Trims.entry?_outside (ht : h.Trims inside h') {l : Location} (hl : ¬inside h.cwd l) :
    h'.tree.entry? l = h.tree.entry? l := by
  rcases ht.entries l with he | ⟨-, -, hin⟩
  · exact he
  · exact absurd hin hl

theorem Trims.adds (new : Location → Location → ByteArray → Prop) (ht : h.Trims inside h')
    (hv : h.Valid → h'.Valid) : h.Adds new h' :=
  ⟨ht.cwd, hv, fun _ _ _ he => .inl (ht.entry?_of_some he)⟩

-- What can be reached after files are gone could be reached before.
theorem Trims.step_of_step (ht : h.Trims inside h') {l m : Location} {name : String}
    (hs : h'.tree.step l name = .ok m) : h.tree.step l name = .ok m := by
  obtain ⟨hl, hm, hname⟩ := FileTree.step_eq_ok_iff.mp hs
  rw [ht.isDirectoryAt] at hl
  refine FileTree.step_eq_ok_iff.mpr ⟨hl, hm, hname.imp_right fun ⟨hlong, he⟩ => ⟨hlong, ?_⟩⟩
  obtain ⟨e, he⟩ := Option.isSome_iff_exists.mp he
  rw [ht.entry?_of_some he]
  rfl

-- Steps to directories and to places outside are still there.
theorem Trims.step_outside (ht : h.Trims inside h') {l m : Location} {name : String}
    (hs : h.tree.step l name = .ok m) (hm : h.tree.isDirectoryAt m = true ∨ ¬inside h.cwd m) :
    h'.tree.step l name = .ok m := by
  have he : h'.tree.entry? m = h.tree.entry? m := by
    rcases ht.entries m with he | ⟨-, hdir, hin⟩
    · exact he
    · rcases hm with hm | hm
      · rw [hdir] at hm
        cases hm
      · exact absurd hin hm
  rw [FileTree.step_eq_ok_iff] at hs ⊢
  rwa [ht.isDirectoryAt, he]

theorem Trims.walk_of_walk (ht : h.Trims inside h') {names : List String} {l m : Location}
    (hw : h'.tree.walk l names = .ok m) : h.tree.walk l names = .ok m := by
  induction names generalizing l with
  | nil => exact hw
  | cons name names ih =>
    obtain ⟨k, hs, hw⟩ := FileTree.walk_cons_eq_ok hw
    rw [FileTree.walk, List.foldlM_cons, ht.step_of_step hs]
    exact ih hw

theorem Trims.walk_outside (ht : h.Trims inside h') {names : List String} {l m : Location}
    (hw : h.tree.walk l names = .ok m) (hm : ¬inside h.cwd m) : h'.tree.walk l names = .ok m := by
  induction names generalizing l with
  | nil => exact hw
  | cons name names ih =>
    obtain ⟨k, hs, hw⟩ := FileTree.walk_cons_eq_ok hw
    have hk : h.tree.isDirectoryAt k = true ∨ ¬inside h.cwd k := by
      cases names with
      | nil =>
        cases hw
        exact .inr hm
      | cons next names =>
        obtain ⟨_, hs', -⟩ := FileTree.walk_cons_eq_ok hw
        exact .inl (FileTree.isDirectoryAt_of_step hs')
    rw [FileTree.walk, List.foldlM_cons, ht.step_outside hs hk]
    exact ih hw

theorem Trims.resolve_of_resolve (ht : h.Trims inside h') {p : Path} {l : Location}
    (hr : h'.resolve p = .ok l) : h.resolve p = .ok l := by
  unfold resolve FileTree.resolve at hr ⊢
  rw [ht.cwd] at hr
  split at hr
  · cases hr
  · exact ht.walk_of_walk hr

theorem Trims.resolve_outside (ht : h.Trims inside h') {p : Path} {l : Location}
    (hr : h.resolve p = .ok l) (hl : ¬inside h.cwd l) : h'.resolve p = .ok l := by
  unfold resolve FileTree.resolve at hr ⊢
  rw [ht.cwd]
  split at hr
  · cases hr
  · exact ht.walk_outside hr hl

theorem Trims.textAt_of_textAt (ht : h.Trims inside h') {l : Location} {text : String}
    (hs : h'.textAt l = .ok text) : h.textAt l = .ok text := by
  rcases ht.entries l with he | ⟨he, -⟩
  · unfold textAt at hs ⊢
    rwa [he] at hs
  · unfold textAt at hs
    rw [he] at hs
    simp only at hs
    split at hs <;> cases hs

theorem Trims.textAt_outside (ht : h.Trims inside h') {l : Location} (hl : ¬inside h.cwd l) :
    h'.textAt l = h.textAt l := by
  unfold textAt
  rw [ht.entry?_outside hl]

theorem Trims.read_of_read (ht : h.Trims inside h') {p : Path} {text : String}
    (hs : h'.read p = .ok text) : h.read p = .ok text := by
  unfold read at hs ⊢
  obtain ⟨l, hr, hs⟩ := bind_eq_ok hs
  rw [ht.resolve_of_resolve hr]
  exact ht.textAt_of_textAt hs

theorem Trims.changed_of_changed (ht : h.Trims inside h') (hv : h'.Valid) {p : Path} {t : Instant}
    (hc : h'.changed p = .ok t) : h.changed p = .ok t := by
  unfold changed entryAt at hc ⊢
  cases hr : h'.resolve p with
  | error fault =>
    rw [hr] at hc
    cases hc
  | ok l =>
    rw [hr] at hc
    rw [ht.resolve_of_resolve hr]
    simp only at hc ⊢
    rcases ht.entries l with he | ⟨he, hdir, -⟩
    · rw [he, ht.clock] at hc
      exact hc
    · rw [← ht.isDirectoryAt] at hdir
      rcases hv.tree.entry?_of_resolve hr with hdir' | ⟨e, he'⟩
      · rw [hdir] at hdir'
        cases hdir'
      · rw [he] at he'
        cases he'

end Host

namespace Action

-- Removing a file in a valid tree removes nothing else.
theorem removeFile_trims (p : Path) {h : Host} (hv : h.Valid) :
    h.Trims (fun cwd l => l = FileTree.place cwd p) ((removeFile p).run h).2 := by
  rw [removeFile_run]
  cases hr : h.resolve p with
  | error fault => exact Host.Trims.refl _ h
  | ok l =>
    simp only
    split
    · exact Host.Trims.refl _ h
    next hdir =>
    have hdir : h.tree.isDirectoryAt l = false := by simpa using hdir
    refine ⟨rfl, rfl, fun m => ?_⟩
    change FileTree.entry? (h.tree.erase l) m = _ ∨ FileTree.entry? (h.tree.erase l) m = none ∧ _
    rw [FileTree.entry?_erase]
    by_cases hlm : l <+: m
    · rw [if_pos hlm]
      cases he : h.tree.entry? m with
      | none => exact .inl rfl
      | some e =>
        obtain rfl := hv.tree.eq_of_prefix hdir he hlm
        exact .inr ⟨rfl, hdir, (FileTree.resolve_eq_ok hr).2⟩
    · exact .inl (if_neg hlm)

end Action

end TemplateEngine
