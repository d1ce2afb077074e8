import TemplateEngine.Proofs.Files.Directories
import TemplateEngine.Proofs.Files.Growth

-- What actions do to files whose paths are names joined to the path of a directory that is there:
-- just when they succeed, and what they leave behind.
namespace TemplateEngine

namespace FileTree

theorem unusable?_mono {p q : Path} (hq : q.text ≠ "") (hpq : q.text.toList <+: p.text.toList)
    (hp : unusable? p = none) : unusable? q = none := by
  obtain ⟨rest, hrest⟩ := hpq
  have htext : p.text = q.text ++ String.ofList rest := by
    rw [← String.toList_inj, String.toList_append, String.toList_ofList, hrest]
  have hnul := unusable?_eq_none hp
  have hsize := utf8ByteSize_of_usable hp
  rw [htext, String.utf8ByteSize_append] at hsize
  refine usable_of hq (fun hmem => hnul ?_) (by omega)
  rw [← hrest]
  exact List.mem_append_left _ hmem

theorem isDirectoryAt_of_file {t : FileTree} {l : Location} {content : ByteArray} {changed : Instant}
    (he : t.entry? l = some (.file content changed)) (hl : l ≠ []) : t.isDirectoryAt l = false := by
  rw [Bool.eq_false_iff]
  intro hdir
  rcases isDirectoryAt_iff.mp hdir with hnil | ⟨changed, he'⟩
  · exact hl hnil
  · rw [he] at he'
    cases he'

end FileTree

-- An empty path stands for the working directory where a name is joined to it.
def Path.orHere (p : Path) : Path := if p.text = "" then ⟨"."⟩ else p

namespace Host

variable {h h' : Host} {p : Path} {l : Location} {name : String}

theorem Opens.resolve (ho : h.Opens p l) (hu : FileTree.unusable? p = none) : h.resolve p = .ok l := by
  unfold Host.resolve FileTree.resolve
  rw [hu]
  exact ho.walk

theorem Opens.present (ho : h.Opens p l) (hu : FileTree.unusable? p = none) : h.present p = true := by
  unfold Host.present
  rw [ho.resolve hu]
  rfl

theorem entryAt_eq (hr : h.resolve p = .ok l) :
    h.entryAt p = .ok ((h.tree.entry? l).getD (.directory h.clock)) := by
  unfold entryAt
  rw [hr]
  cases he : h.tree.entry? l <;> simp [he]

theorem Opens.isDirectory (ho : h.Opens p l) (hu : FileTree.unusable? p = none) :
    h.isDirectory p = true := by
  unfold Host.isDirectory
  rw [entryAt_eq (ho.resolve hu)]
  cases he : h.tree.entry? l with
  | none => rfl
  | some e => simp [ho.shown e he]

theorem Valid.opens (hv : h.Valid) (hd : h.isDirectory p = true) :
    h.Opens p (FileTree.place h.cwd p) ∧ FileTree.unusable? p = none := by
  unfold Host.isDirectory at hd
  cases hr : h.resolve p with
  | error fault => simp [entryAt, hr] at hd
  | ok l =>
    rw [entryAt_eq hr] at hd
    have hshown : ∀ e, h.tree.entry? l = some e → e.isFile = false := by
      intro e he
      simpa [he] using hd
    have hdir : h.tree.isDirectoryAt l = true := by
      rcases hv.tree.entry?_of_resolve hr with hdir | ⟨e, he⟩
      · exact hdir
      · cases e with
        | file content changed => exact absurd (hshown _ he) (by simp [Entry.isFile])
        | directory changed => exact FileTree.isDirectoryAt_iff.mpr (.inr ⟨changed, he⟩)
    obtain ⟨hu, rfl⟩ := FileTree.resolve_eq_ok hr
    unfold Host.resolve FileTree.resolve at hr
    rw [hu] at hr
    exact ⟨⟨hr, hdir, hshown⟩, hu⟩

theorem Valid.opens_orHere (hv : h.Valid) (hd : h.isDirectory p.orHere = true) :
    h.Opens p (FileTree.place h.cwd p) ∧ (p.text = "" ∨ FileTree.unusable? p = none) := by
  unfold Path.orHere at hd
  by_cases hp : p.text = ""
  · rw [if_pos hp] at hd
    obtain ⟨ho, -⟩ := hv.opens hd
    obtain ⟨text⟩ := p
    obtain rfl : text = "" := hp
    -- The empty path has one step, which stays as that of a point does.
    have hcwd : FileTree.place h.cwd ⟨"."⟩ = h.cwd := rfl
    have hempty : FileTree.place h.cwd ⟨""⟩ = h.cwd := rfl
    rw [hcwd] at ho
    rw [hempty]
    exact ⟨⟨FileTree.walk_stays ho.directory (by decide), ho.directory, ho.shown⟩, .inl rfl⟩
  · rw [if_neg hp] at hd
    obtain ⟨ho, hu⟩ := hv.opens hd
    exact ⟨ho, .inr hu⟩

-- The directory of a name below a path can be used where the path can.
theorem unusable?_directory_join (hname : IsFileName name)
    (hp : p.text = "" ∨ FileTree.unusable? p = none) :
    FileTree.unusable? (p.join name).directory = none := by
  obtain ⟨names, hnames, -⟩ := Path.stepNames_join p
  rcases Path.directory_join hname p (hnames name hname) with ⟨-, hdirectory⟩ | ⟨-, -, -, -, hfull, hprefix⟩
  · rw [hdirectory]
    cases p.isAbsolute <;> decide
  · refine FileTree.unusable?_mono hfull hprefix (hp.resolve_left fun hempty => ?_)
    rw [hempty] at hprefix
    exact hfull (String.toList_inj.mp (List.prefix_nil.mp hprefix))

theorem Opens.of_directories (ho : h.Opens p l) (hcwd : h'.cwd = h.cwd)
    (hdirs : ∀ k, h.tree.isDirectoryAt k = true → h'.tree.isDirectoryAt k = true)
    (hl : h'.tree.entry? l = h.tree.entry? l) : h'.Opens p l := by
  refine ⟨?_, hdirs l ho.directory, fun e he => ho.shown e (hl ▸ he)⟩
  rw [hcwd]
  exact FileTree.walk_of_directories hdirs ho.walk ho.directory

theorem Opens.join (ho : h.Opens p l) (hname : IsFileName name) (hlong : name.utf8ByteSize ≤ FileTree.maxName)
    {changed : Instant} (he : h.tree.entry? (l ++ [name]) = some (.directory changed)) :
    h.Opens (p.join name) (l ++ [name]) := by
  obtain ⟨names, hjoin, hnames⟩ := Path.stepNames_join p
  refine ⟨?_, FileTree.isDirectoryAt_iff.mpr (.inr ⟨changed, he⟩), fun e he' => ?_⟩
  · rw [hjoin name hname, FileTree.start_join hname, FileTree.walk_append, ho.walk_names hnames]
    change FileTree.walk h.tree l [name] = _
    have hstep : h.tree.step l name = .ok (l ++ [name]) := by
      rw [FileTree.step_eq_ok_iff, FileTree.lexicalStep_name hname, he]
      exact ⟨ho.directory, rfl, .inr ⟨hlong, rfl⟩⟩
    rw [FileTree.walk_cons, hstep]
    rfl
  · rw [he] at he'
    cases he'
    rfl

theorem Opens.resolve_step (ho : h.Opens p l) (hname : IsFileName name)
    (hu : FileTree.unusable? (p.join name) = none) (hlong : name.utf8ByteSize ≤ FileTree.maxName) :
    h.resolve (p.join name) =
      if (h.tree.entry? (l ++ [name])).isSome then .ok (l ++ [name]) else .error .missing := by
  rw [ho.resolve_join hname hu]
  unfold FileTree.step
  simp [ho.directory, hname.1, hname.2.1, hname.2.2.1, Nat.not_lt.mpr hlong]

-- A name below a directory leads to what has it there, if it leads anywhere.
theorem Opens.resolve_join_iff (ho : h.Opens p l) (hname : IsFileName name) {m : Location} :
    h.resolve (p.join name) = .ok m ↔ FileTree.unusable? (p.join name) = none ∧
      name.utf8ByteSize ≤ FileTree.maxName ∧ m = l ++ [name] ∧ (h.tree.entry? (l ++ [name])).isSome = true := by
  cases hu : FileTree.unusable? (p.join name) with
  | some fault =>
    unfold Host.resolve FileTree.resolve
    rw [hu]
    simp
  | none =>
    rw [ho.resolve_join hname hu, FileTree.step_eq_ok_iff, FileTree.lexicalStep_name hname]
    have hdots : name ∉ ["", ".", ".."] := by simp [hname.1, hname.2.1, hname.2.2.1]
    constructor
    · rintro ⟨-, rfl, hstep⟩
      obtain ⟨hlong, hsome⟩ := hstep.resolve_left hdots
      exact ⟨rfl, hlong, rfl, hsome⟩
    · rintro ⟨-, hlong, rfl, hsome⟩
      exact ⟨ho.directory, rfl, .inr ⟨hlong, hsome⟩⟩

-- Where a name below a directory is missing, nothing has it.
theorem Opens.entry?_of_missing (ho : h.Opens p l) (hname : IsFileName name)
    (hr : h.resolve (p.join name) = .error .missing) : h.tree.entry? (l ++ [name]) = none := by
  cases hu : FileTree.unusable? (p.join name) with
  | some fault =>
    unfold Host.resolve FileTree.resolve at hr
    rw [hu] at hr
    cases hr
    unfold FileTree.unusable? at hu
    have hfull := Path.join_ne_empty hname p
    rw [if_neg (by simpa using hfull)] at hu
    split at hu
    · cases hu
    · split at hu <;> cases hu
  | none =>
    rw [ho.resolve_join hname hu] at hr
    unfold FileTree.step at hr
    simp only [ho.directory, hname.1, hname.2.1, hname.2.2.1, Bool.not_true, Bool.or_self, decide_false,
      Bool.false_eq_true, if_false] at hr
    split at hr
    · cases hr
    · split at hr
      · cases hr
      · next hnone => simpa using hnone

theorem Opens.present_join_iff (ho : h.Opens p l) (hname : IsFileName name) :
    h.present (p.join name) = true ↔ FileTree.unusable? (p.join name) = none ∧
      name.utf8ByteSize ≤ FileTree.maxName ∧ (h.tree.entry? (l ++ [name])).isSome = true := by
  have hresolve : h.present (p.join name) = true ↔ ∃ m, h.resolve (p.join name) = .ok m := by
    unfold Host.present
    cases h.resolve (p.join name) <;> simp [Except.toBool]
  rw [hresolve]
  simp only [ho.resolve_join_iff hname]
  constructor
  · rintro ⟨-, hu, hlong, -, hsome⟩
    exact ⟨hu, hlong, hsome⟩
  · rintro ⟨hu, hlong, hsome⟩
    exact ⟨_, hu, hlong, rfl, hsome⟩

theorem Opens.read_join_iff (ho : h.Opens p l) (hname : IsFileName name) {text : String} :
    h.read (p.join name) = .ok text ↔ FileTree.unusable? (p.join name) = none ∧
      name.utf8ByteSize ≤ FileTree.maxName ∧
        ∃ changed, h.tree.entry? (l ++ [name]) = some (.file text.toUTF8 changed) := by
  constructor
  · intro hread
    obtain ⟨m, hm, hs⟩ := bind_eq_ok hread
    obtain ⟨hu, hlong, rfl, -⟩ := (ho.resolve_join_iff hname).mp hm
    exact ⟨hu, hlong, textAt_eq_ok hs⟩
  · rintro ⟨hu, hlong, changed, he⟩
    have hm := (ho.resolve_join_iff hname).mpr ⟨hu, hlong, rfl, by rw [he]; rfl⟩
    unfold Host.read
    rw [hm]
    exact textAt_of_file he

end Host

namespace Action

variable {h : Host} {p : Path} {l : Location} {name : String} {content : ByteArray}

theorem query_run {ε α : Type} (f : Host → α) (h : Host) : (query f : Action ε α).run h = (.ok (f h), h) := rfl

theorem ensureDirectory_run (p : Path) (h : Host) :
    (ensureDirectory p).run h =
      if h.present p then
        if h.isDirectory p then (.ok (), h)
        else (.error s!"Path exists but is not a directory: {p.text}", h)
      else
        match (makeDirectories p).run h with
        | (.ok _, h') => (.ok (), h')
        | (.error _, h') => (.error s!"Failed to create directory: {p.text}", h') := by
  unfold ensureDirectory
  rw [run_bind, query_run]
  cases h.present p with
  | true =>
    simp only [if_true]
    rw [run_bind, query_run]
    cases h.isDirectory p <;> rfl
  | false =>
    simp only [Bool.false_eq_true, if_false]
    rw [run_adapt]
    cases (makeDirectories p).run h with
    | mk result h' => cases result <;> rfl

theorem ensureDirectory_opens (ho : h.Opens p l) (hu : FileTree.unusable? p = none) :
    (ensureDirectory p).run h = (.ok (), h) := by
  rw [ensureDirectory_run, ho.present hu, ho.isDirectory hu]
  rfl

-- A file below a directory that is there can be written unless its name is too long or a directory
-- has it. Nothing else changes.
theorem writeFile_below (ho : h.Opens p l) (hp : p.text = "" ∨ FileTree.unusable? p = none)
    (hname : IsFileName name) (content : ByteArray) :
    (writeFile (p.join name) content).run h =
      if FileTree.unusable? (p.join name) = none ∧ name.utf8ByteSize ≤ FileTree.maxName ∧
          h.tree.isDirectoryAt (l ++ [name]) = false then
        (.ok (), { h with tree := h.tree.set (l ++ [name]) (.file content h.clock) })
      else (.error s!"Failed to rename temp file to: {(p.join name).text}", h) := by
  have hensure := ensureDirectory_opens (ho.directory_join hname) (Host.unusable?_directory_join hname hp)
  rw [writeFile_run, hensure]
  dsimp only
  cases hu : FileTree.unusable? (p.join name) with
  | some fault =>
    have htarget : h.tree.target h.cwd (p.join name) = .error fault := by
      unfold FileTree.target FileTree.directoryFor
      rw [hu]
      rfl
    rw [htarget]
    rfl
  | none =>
    rw [ho.target_join hname hu]
    unfold FileTree.childOf
    by_cases hlong : FileTree.maxName < name.utf8ByteSize
    · rw [if_pos hlong]
      simp [Nat.not_le.mpr hlong]
    · rw [if_neg hlong]
      cases hdir : h.tree.isDirectoryAt (l ++ [name]) <;> simp [Nat.not_lt.mp hlong, hdir]

theorem makeDirectories_below (ho : h.Opens p l) (hname : IsFileName name)
    (hu : FileTree.unusable? (p.join name) = none) (hlong : name.utf8ByteSize ≤ FileTree.maxName)
    (he : h.tree.entry? (l ++ [name]) = none) :
    (makeDirectories (p.join name)).run h =
      (.ok (), { h with tree := h.tree.set (l ++ [name]) (.directory h.clock) }) := by
  have hvacancy : h.tree.vacancy h.cwd (p.join name) = .ok (l ++ [name]) := by
    rw [ho.vacancy_join hname hu]
    unfold FileTree.childOf
    rw [if_neg (Nat.not_lt.mpr hlong)]
    change (if (h.tree.entry? (l ++ [name])).isSome = true then _ else _) = _
    rw [he]
    rfl
  have hparts : (p.join name).parts.isEmpty = false := by
    obtain ⟨before, hlast⟩ := Path.pieces_join_last hname p
    unfold Path.parts
    rw [Path.located_eq, hlast]
    cases before with
    | nil => simp [Path.bodies, Path.partOf?_name hname]
    | cons first before =>
      rw [Path.bodies_concat (List.cons_ne_nil _ _), Path.partOf?_name hname]
      simp
  unfold makeDirectories
  rw [hparts, if_neg Bool.false_ne_true, makeFirst, run_get_bind]
  dsimp only
  rw [hvacancy]
  dsimp only
  rw [if_neg (by simp), makeDirectory_run, hvacancy]

-- A directory below one that is there is created if nothing has its name.
theorem ensureDirectory_below (ho : h.Opens p l) (hname : IsFileName name)
    (hu : FileTree.unusable? (p.join name) = none) (hlong : name.utf8ByteSize ≤ FileTree.maxName) :
    (ensureDirectory (p.join name)).run h =
      match h.tree.entry? (l ++ [name]) with
      | none => (.ok (), { h with tree := h.tree.set (l ++ [name]) (.directory h.clock) })
      | some (.directory _) => (.ok (), h)
      | some (.file _ _) => (.error s!"Path exists but is not a directory: {(p.join name).text}", h) := by
  have hstep := ho.resolve_step hname hu hlong
  cases he : h.tree.entry? (l ++ [name]) with
  | none =>
    have hpresent : h.present (p.join name) = false := by
      rw [he] at hstep
      unfold Host.present
      rw [hstep]
      rfl
    rw [ensureDirectory_run, hpresent, makeDirectories_below ho hname hu hlong he]
    rfl
  | some e =>
    rw [he] at hstep
    cases e with
    | directory changed => exact ensureDirectory_opens (ho.join hname hlong he) hu
    | file content changed =>
      have hpresent : h.present (p.join name) = true := by
        unfold Host.present
        rw [hstep]
        rfl
      have hdir : h.isDirectory (p.join name) = false := by
        unfold Host.isDirectory
        rw [Host.entryAt_eq hstep, he]
        rfl
      rw [ensureDirectory_run, hpresent, hdir]
      rfl

theorem removeFile_below (ho : h.Opens p l) (hname : IsFileName name)
    (hu : FileTree.unusable? (p.join name) = none) (hlong : name.utf8ByteSize ≤ FileTree.maxName) :
    (removeFile (p.join name)).run h =
      match h.tree.entry? (l ++ [name]) with
      | none => (.ok false, h)
      | some (.directory _) => (.error s!"Failed to remove file: {(p.join name).text}", h)
      | some (.file _ _) => (.ok true, h.without (l ++ [name])) := by
  have hstep := ho.resolve_step hname hu hlong
  unfold removeFile
  rw [run_get_bind, hstep]
  cases he : h.tree.entry? (l ++ [name]) with
  | none => rfl
  | some e =>
    simp only [Option.isSome_some, if_true]
    cases e with
    | directory changed =>
      rw [FileTree.isDirectoryAt_iff.mpr (.inr ⟨changed, he⟩)]
      rfl
    | file content changed =>
      rw [FileTree.isDirectoryAt_of_file he (by simp)]
      rfl

end Action

end TemplateEngine
