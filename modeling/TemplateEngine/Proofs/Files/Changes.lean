import TemplateEngine.Proofs.Files.Valid
import TemplateEngine.Proofs.Runs

-- What actions do to the files around them, whether they succeed or fail half-way.
namespace TemplateEngine

namespace Host

-- No files are new but those allowed at a working directory, and the tree stays valid.
structure Adds (new : Location → Location → ByteArray → Prop) (h h' : Host) : Prop where
  cwd : h'.cwd = h.cwd
  valid : h.Valid → h'.Valid
  files : ∀ l content changed, h'.tree.entry? l = some (.file content changed) →
    h.tree.entry? l = some (.file content changed) ∨ new h.cwd l content

variable {new new' : Location → Location → ByteArray → Prop} {h h' : Host}

theorem Adds.refl (new : Location → Location → ByteArray → Prop) (h : Host) : h.Adds new h :=
  ⟨rfl, id, fun _ _ _ => .inl⟩

theorem Adds.trans (new : Location → Location → ByteArray → Prop) (h h' h'' : Host)
    (hh' : h.Adds new h') (hh'' : h'.Adds new h'') : h.Adds new h'' := by
  refine ⟨hh''.cwd.trans hh'.cwd, hh''.valid ∘ hh'.valid, fun l content changed he => ?_⟩
  rcases hh''.files l content changed he with he | hnew
  · exact hh'.files l content changed he
  · exact .inr (hh'.cwd ▸ hnew)

theorem Adds.mono (hh' : h.Adds new h')
    (hnew : ∀ l content, new h.cwd l content → new' h.cwd l content) : h.Adds new' h' :=
  ⟨hh'.cwd, hh'.valid,
    fun l content changed he => (hh'.files l content changed he).imp_right (hnew l content)⟩

theorem adds_set_directory (new : Location → Location → ByteArray → Prop) {l : Location}
    (hl : h.Valid → l.Proper) (hparent : h.tree.isDirectoryAt l.parent = true) (changed : Instant) :
    h.Adds new { h with tree := h.tree.set l (.directory changed) } := by
  refine ⟨rfl, fun hv => ⟨?_, hv.cwd⟩, fun m content changed' he => ?_⟩
  · exact hv.tree.set (hl hv) hparent (.inr ⟨changed, rfl⟩)
  · rw [FileTree.entry?_set] at he
    split at he
    · cases he
    · exact .inl he

theorem adds_set_file {l : Location} (hl : h.Valid → l.Proper)
    (hparent : h.tree.isDirectoryAt l.parent = true) (hdir : h.tree.isDirectoryAt l = false)
    (content : ByteArray) (changed : Instant) :
    h.Adds (fun _ m c => m = l ∧ c = content) { h with tree := h.tree.set l (.file content changed) } := by
  refine ⟨rfl, fun hv => ⟨?_, hv.cwd⟩, fun m c changed' he => ?_⟩
  · exact hv.tree.set (hl hv) hparent (.inl hdir)
  · rw [FileTree.entry?_set] at he
    split at he
    · next hml =>
      cases he
      exact .inr ⟨hml, rfl⟩
    · exact .inl he

theorem adds_erase (new : Location → Location → ByteArray → Prop) (h : Host) (l : Location) :
    h.Adds new { h with tree := h.tree.erase l } := by
  refine ⟨rfl, fun hv => ⟨hv.tree.erase l, hv.cwd⟩, fun m content changed he => ?_⟩
  rw [FileTree.entry?_erase] at he
  split at he
  · cases he
  · exact .inl he

end Host

namespace Action

variable {new : Location → Location → ByteArray → Prop}

theorem makeDirectory_run (p : Path) (h : Host) :
    (makeDirectory p).run h =
      match h.tree.vacancy h.cwd p with
      | .error fault => if h.isDirectory p then (.ok (), h) else (.error fault, h)
      | .ok l => (.ok (), { h with tree := h.tree.set l (.directory h.clock) }) := by
  unfold makeDirectory
  rw [run_get_bind]
  cases h.tree.vacancy h.cwd p with
  | error fault => simp only; split <;> rfl
  | ok l => rfl

theorem makeDirectory_adds (p : Path) : Keeps (Host.Adds new) (makeDirectory p) := by
  intro h
  rw [makeDirectory_run]
  cases hv : h.tree.vacancy h.cwd p with
  | error fault =>
    simp only
    split <;> exact Host.Adds.refl new h
  | ok l =>
    have hroom := (FileTree.vacancy_eq_ok hv).1
    exact Host.adds_set_directory new (fun hvalid => hroom.proper hvalid.cwd) hroom.parent h.clock

theorem get_adds {ε : Type} : Keeps (Host.Adds new) (get : Action ε Host) := Host.Adds.refl new

theorem makeFirst_adds (dirs : List Path) : Keeps (Host.Adds new) (makeFirst dirs) := by
  induction dirs with
  | nil => exact Host.Adds.refl new
  | cons p dirs ih =>
    unfold makeFirst
    refine Keeps.bind (Host.Adds.trans new) get_adds fun h => ?_
    dsimp only
    split
    · exact Keeps.bind (Host.Adds.trans new) ih fun _ => makeDirectory_adds p
    · exact makeDirectory_adds p

theorem makeDirectories_adds (p : Path) : Keeps (Host.Adds new) (makeDirectories p) := by
  unfold makeDirectories
  split
  · exact Host.Adds.refl new
  · exact makeFirst_adds _

theorem ensureDirectory_adds (p : Path) : Keeps (Host.Adds new) (ensureDirectory p) := by
  unfold ensureDirectory
  refine Keeps.bind (Host.Adds.trans new) (Host.Adds.refl new) fun present => ?_
  split
  · refine Keeps.bind (Host.Adds.trans new) (Host.Adds.refl new) fun directory => ?_
    split <;> exact Host.Adds.refl new
  · exact (makeDirectories_adds p).adapt _

-- The only file that a write adds stands where the path leads, with the new content.
def Written (p : Path) (content : ByteArray) (cwd l : Location) (c : ByteArray) : Prop :=
  l = FileTree.place cwd p ∧ c = content

theorem writeFile_adds (p : Path) (content : ByteArray) :
    Keeps (Host.Adds (Written p content)) (writeFile p content) := by
  unfold writeFile
  refine Keeps.bind (Host.Adds.trans _) (ensureDirectory_adds _) fun _ => ?_
  intro h
  rw [run_get_bind]
  cases ht : h.tree.target h.cwd p with
  | error fault => exact Host.Adds.refl _ h
  | ok l =>
    have hroom := FileTree.target_eq_ok ht
    simp only
    split
    · exact Host.Adds.refl _ h
    · next hdir =>
      refine (Host.adds_set_file (fun hvalid => hroom.proper hvalid.cwd) hroom.parent
        (by simpa using hdir) content h.clock).mono fun m c hnew => ?_
      exact ⟨hnew.1.trans hroom.place, hnew.2⟩

theorem removeFile_run (p : Path) (h : Host) :
    ((removeFile p).run h).2 =
      match h.resolve p with
      | .error _ => h
      | .ok l => if h.tree.isDirectoryAt l then h else { h with tree := h.tree.erase l } := by
  unfold removeFile
  rw [run_get_bind]
  cases h.resolve p with
  | error fault => cases fault <;> rfl
  | ok l =>
    simp only
    split <;> rfl

theorem removeFile_adds (p : Path) : Keeps (Host.Adds new) (removeFile p) := by
  intro h
  rw [removeFile_run]
  cases h.resolve p with
  | error fault => exact Host.Adds.refl new h
  | ok l =>
    simp only
    split
    · exact Host.Adds.refl new h
    · exact Host.adds_erase new h l

theorem removeTree_adds (p : Path) : Keeps (Host.Adds new) (removeTree p) := by
  intro h
  unfold removeTree
  rw [run_get_bind]
  cases h.resolve p with
  | error fault => exact Host.Adds.refl new h
  | ok l =>
    simp only
    split
    · exact Host.adds_erase new h l
    · exact Host.Adds.refl new h

end Action

end TemplateEngine
