import TemplateEngine.Proofs.Cache.Effects
import TemplateEngine.Proofs.Cache.Own
import TemplateEngine.Proofs.Files.Listing

-- What the changes that a cache makes do to its files.
namespace TemplateEngine.Cache

variable {c : Cache} {h h' : Host} {k : Key} {cwd : Location}

namespace Change

theorem make_write_run (path : Path) (content : String) (h : Host) :
    (write path content).make.run h =
      match (Action.writeFile path content.toUTF8).run h with
      | (.ok a, h') => (.ok a, h')
      | (.error message, h') => (.error (.cache "write" path message), h') := by
  unfold make
  rw [run_adapt]
  cases (Action.writeFile path content.toUTF8).run h with
  | mk result h' => cases result <;> rfl

theorem make_remove_run (path : Path) (h : Host) :
    (remove path).make.run h =
      match (Action.removeFile path).run h with
      | (.ok _, h') => (.ok (), h')
      | (.error message, h') => (.error (.cache "remove" path message), h') := by
  unfold make
  rw [run_adapt, run_bind]
  cases (Action.removeFile path).run h with
  | mk result h' => cases result <;> rfl

theorem make_removeTree_run (path : Path) (h : Host) :
    (removeTree path).make.run h =
      if h.isDirectory path then
        match h.resolve path with
        | .error fault => (.error (.cache "clear" path fault.message), h)
        | .ok l =>
          if h.tree.isDirectoryAt l then (.ok (), { h with tree := h.tree.erase l })
          else (.error (.cache "clear" path FileFault.notDirectory.message), h)
      else (.ok (), h) := by
  unfold make
  rw [run_bind, Action.query_run]
  cases h.isDirectory path with
  | false => rfl
  | true =>
    simp only [if_true]
    rw [run_adapt]
    unfold Action.removeTree
    rw [run_get_bind]
    cases h.resolve path with
    | error fault => rfl
    | ok l => cases hdir : h.tree.isDirectoryAt l <;> simp [hdir] <;> rfl

theorem makeAll_cons_run (change : Change) (changes : List Change) (h : Host) :
    (makeAll (change :: changes)).run h =
      match change.make.run h with
      | (.ok _, h') => (makeAll changes).run h'
      | (.error failure, h') => (.error failure, h') := by
  change (change.make >>= fun _ => makeAll changes).run h = _
  rw [run_bind]
  cases change.make.run h with
  | mk result h' => cases result <;> rfl

theorem makeAll_cons_ok {change : Change} {changes : List Change}
    (hrun : (makeAll (change :: changes)).run h = (.ok (), h')) :
    ∃ t, change.make.run h = (.ok (), t) ∧ (makeAll changes).run t = (.ok (), h') := by
  rw [makeAll_cons_run] at hrun
  cases hfirst : change.make.run h with
  | mk result t =>
    rw [hfirst] at hrun
    cases result with
    | error failure => cases hrun
    | ok _ => exact ⟨t, rfl, hrun⟩

theorem makeAll_append_ok {front back : List Change}
    (hrun : (makeAll (front ++ back)).run h = (.ok (), h')) :
    ∃ t, (makeAll front).run h = (.ok (), t) ∧ (makeAll back).run t = (.ok (), h') := by
  induction front generalizing h with
  | nil => exact ⟨h, rfl, hrun⟩
  | cons change front ih =>
    obtain ⟨t, hfirst, hrun⟩ := makeAll_cons_ok hrun
    obtain ⟨u, hfront, hback⟩ := ih hrun
    refine ⟨u, ?_, hback⟩
    rw [makeAll_cons_run, hfirst]
    exact hfront

theorem makeAll_nil_ok (hrun : (makeAll []).run h = (.ok (), h')) : h' = h := (Prod.mk.inj hrun).2.symm

end Change

theorem clear_run (c : Cache) (h : Host) :
    c.clear.run h =
      match c.entries h with
      | .error failure => (.error failure, h)
      | .ok all =>
        match (Change.makeAll (c.clearing (all.map (·.1)))).run h with
        | (.ok _, h') => (.ok all.length, h')
        | (.error failure, h') => (.error failure, h') := by
  unfold clear
  rw [run_get_bind]
  cases c.entries h with
  | error failure => rfl
  | ok all =>
    change (Change.makeAll (c.clearing (all.map (·.1))) >>= fun _ => pure all.length).run h = _
    rw [run_bind]
    dsimp only
    cases (Change.makeAll (c.clearing (all.map (·.1)))).run h with
    | mk result h' => cases result <;> rfl

theorem clear_eq_ok {count : Nat} (hrun : c.clear.run h = (.ok count, h')) :
    ∃ all, c.entries h = .ok all ∧ (Change.makeAll (c.clearing (all.map (·.1)))).run h = (.ok (), h') := by
  rw [clear_run] at hrun
  cases hall : c.entries h with
  | error failure =>
    rw [hall] at hrun
    cases hrun
  | ok all =>
    rw [hall] at hrun
    dsimp only at hrun
    cases hchanges : (Change.makeAll (c.clearing (all.map (·.1)))).run h with
    | mk result t =>
      rw [hchanges] at hrun
      cases result with
      | error failure => cases hrun
      | ok _ =>
        obtain ⟨-, rfl⟩ := Prod.mk.inj hrun
        exact ⟨all, rfl, hchanges⟩

-- Whether the directory of a cache is there.
def Open (c : Cache) (h : Host) : Prop := h.isDirectory c.dir.orHere = true

instance (c : Cache) (h : Host) : Decidable (c.Open h) :=
  inferInstanceAs (Decidable (h.isDirectory c.dir.orHere = true))

-- The directory of a cache is there, in a valid tree.
structure Ready (c : Cache) (h : Host) : Prop where
  valid : h.Valid
  opens : h.Opens c.dir (c.root h.cwd)
  usable : c.dir.text = "" ∨ FileTree.unusable? c.dir = none

theorem Open.ready (hv : h.Valid) (ho : c.Open h) : c.Ready h := by
  obtain ⟨hopens, husable⟩ := hv.opens_orHere ho
  exact ⟨hv, hopens, husable⟩

theorem Ready.tick (hr : c.Ready h) (now : Instant) : c.Ready { h with clock := now } :=
  ⟨⟨hr.valid.tree, hr.valid.cwd⟩, ⟨hr.opens.walk, hr.opens.directory, hr.opens.shown⟩, hr.usable⟩

-- Whether a file may have a name in the directory of a cache, as far as lengths go.
def Fits (c : Cache) (name : String) : Prop :=
  FileTree.unusable? (c.dir.join name) = none ∧ name.utf8ByteSize ≤ FileTree.maxName

instance (c : Cache) (name : String) : Decidable (c.Fits name) := inferInstanceAs (Decidable (_ ∧ _))

def misplaced (p : Path) : Failure := .cache "write" p s!"Failed to rename temp file to: {p.text}"

variable {name : String}

theorem Ready.write_child (hr : c.Ready h) (hname : IsFileName name) (content : String) :
    (Change.write (c.dir.join name) content).make.run h =
      if c.Fits name ∧ h.tree.isDirectoryAt (c.root h.cwd ++ [name]) = false then
        (.ok (), h.put (c.root h.cwd ++ [name]) content.toUTF8)
      else (.error (misplaced (c.dir.join name)), h) := by
  rw [Change.make_write_run, Action.writeFile_below hr.opens hr.usable hname]
  unfold Fits
  by_cases hfits : FileTree.unusable? (c.dir.join name) = none ∧ name.utf8ByteSize ≤ FileTree.maxName ∧
      h.tree.isDirectoryAt (c.root h.cwd ++ [name]) = false
  · rw [if_pos hfits, if_pos ⟨⟨hfits.1, hfits.2.1⟩, hfits.2.2⟩]
    rfl
  · rw [if_neg hfits, if_neg fun hall => hfits ⟨hall.1.1, hall.1.2, hall.2⟩]
    rfl

theorem Ready.of_directories (hr : c.Ready h) (hv : h'.Valid) (hcwd : h'.cwd = h.cwd)
    (hdirs : ∀ l, h.tree.isDirectoryAt l = true → h'.tree.isDirectoryAt l = true)
    (hroot : h'.tree.entry? (c.root h.cwd) = h.tree.entry? (c.root h.cwd)) : c.Ready h' :=
  ⟨hv, hcwd ▸ hr.opens.of_directories hcwd hdirs hroot, hr.usable⟩

theorem Ready.root_proper (hr : c.Ready h) : (c.root h.cwd).Proper := by
  refine FileTree.place_proper hr.valid.cwd ?_
  rcases hr.usable with hempty | hu
  · simp [hempty]
  · exact FileTree.unusable?_eq_none hu

theorem proper_child {l : Location} {n : String} (hl : l.Proper) (hn : IsFileName n) :
    Location.Proper (l ++ [n]) := by
  intro name hname
  rcases List.mem_append.mp hname with hname | hname
  · exact hl name hname
  · rwa [List.mem_singleton.mp hname]

theorem root_ne_child {n : String} : c.root cwd ≠ c.root cwd ++ [n] := by simp

-- The host with a directory for the indexes of a cache.
def withIndexHome (c : Cache) (h : Host) : Host :=
  if (h.tree.entry? (c.indexHome h.cwd)).isSome then h
  else { h with tree := h.tree.set (c.indexHome h.cwd) (.directory h.clock) }

theorem withIndexHome_entry? (c : Cache) (h : Host) (l : Location) :
    (c.withIndexHome h).tree.entry? l =
      if l = c.indexHome h.cwd ∧ h.tree.entry? l = none then some (.directory h.clock)
      else h.tree.entry? l := by
  unfold withIndexHome
  cases he : h.tree.entry? (c.indexHome h.cwd) with
  | none =>
    simp only [Option.isSome_none, Bool.false_eq_true, if_false]
    rw [FileTree.entry?_set]
    by_cases hl : l = c.indexHome h.cwd
    · rw [if_pos hl, if_pos ⟨hl, hl ▸ he⟩]
    · rw [if_neg hl, if_neg fun h => hl h.1]
  | some e =>
    simp only [Option.isSome_some, if_true]
    rw [if_neg]
    rintro ⟨rfl, hnone⟩
    rw [he] at hnone
    cases hnone

@[simp] theorem withIndexHome_cwd (c : Cache) (h : Host) : (c.withIndexHome h).cwd = h.cwd := by
  unfold withIndexHome
  split <;> rfl

@[simp] theorem withIndexHome_clock (c : Cache) (h : Host) : (c.withIndexHome h).clock = h.clock := by
  unfold withIndexHome
  split <;> rfl

theorem Ready.withIndexHome (hr : c.Ready h) : c.Ready (c.withIndexHome h) := by
  have hentry := c.withIndexHome_entry? h
  refine hr.of_directories ?_ (c.withIndexHome_cwd h) (fun l hl => ?_) ?_
  · unfold Cache.withIndexHome
    split
    · exact hr.valid
    · refine ⟨hr.valid.tree.set ?_ ?_ (.inr ⟨_, rfl⟩), hr.valid.cwd⟩
      · exact proper_child hr.root_proper (by decide)
      · simpa [indexHome, Location.parent] using hr.opens.directory
  · rw [FileTree.isDirectoryAt_iff] at hl ⊢
    rw [hentry]
    by_cases hhome : l = c.indexHome h.cwd ∧ h.tree.entry? l = none
    · exact .inr ⟨_, if_pos hhome⟩
    · rwa [if_neg hhome]
  · rw [hentry, if_neg fun h => root_ne_child h.1]

theorem withIndexHome_directory
    (hfile : ∀ content changed, h.tree.entry? (c.indexHome h.cwd) ≠ some (.file content changed)) :
    ∃ changed, (c.withIndexHome h).tree.entry? (c.indexHome h.cwd) = some (.directory changed) := by
  rw [Cache.withIndexHome_entry?]
  cases he : h.tree.entry? (c.indexHome h.cwd) with
  | none => exact ⟨h.clock, if_pos ⟨rfl, rfl⟩⟩
  | some e =>
    rw [if_neg (by simp)]
    cases e with
    | file content changed => exact absurd he (hfile content changed)
    | directory changed => exact ⟨changed, rfl⟩

theorem unusable?_indexDir {source : Path} (hu : FileTree.unusable? (c.indexPath source) = none) :
    FileTree.unusable? c.indexDir = none :=
  FileTree.unusable?_mono (Path.join_ne_empty (by decide) c.dir)
    (Path.prefix_join (isFileName_indexName source) c.indexDir) hu

theorem indexPath_directory (c : Cache) (source : Path) : (c.indexPath source).directory = c.indexDir :=
  Path.directory_join_join (by decide) (isFileName_indexName source) c.dir

theorem Ready.ensure_indexDir (hr : c.Ready h) (hu : FileTree.unusable? c.indexDir = none) :
    (Action.ensureDirectory c.indexDir).run h =
      match h.tree.entry? (c.indexHome h.cwd) with
      | some (.file _ _) => (.error s!"Path exists but is not a directory: {c.indexDir.text}", h)
      | _ => (.ok (), c.withIndexHome h) := by
  have hindex : IsFileName "index" := by decide
  have hbelow := Action.ensureDirectory_below hr.opens hindex hu (by decide)
  refine hbelow.trans ?_
  unfold Cache.withIndexHome Cache.indexHome
  rcases h.tree.entry? (c.root h.cwd ++ ["index"]) with _ | ⟨content, changed⟩ | changed <;> rfl

-- Where no file stands in the way, the directory for indexes is made before an index is written.
theorem Ready.write_index (hr : c.Ready h) (hu : FileTree.unusable? c.indexDir = none) (source : Path)
    (content : String)
    (hfile : ∀ content changed, h.tree.entry? (c.indexHome h.cwd) ≠ some (.file content changed)) :
    (Change.write (c.indexPath source) content).make.run h =
      if FileTree.unusable? (c.indexPath source) = none ∧ (indexName source).utf8ByteSize ≤ FileTree.maxName ∧
          (c.withIndexHome h).tree.isDirectoryAt (c.indexPlace h.cwd source) = false then
        (.ok (), (c.withIndexHome h).put (c.indexPlace h.cwd source) content.toUTF8)
      else (.error (misplaced (c.indexPath source)), c.withIndexHome h) := by
  obtain ⟨changed, hhome⟩ := withIndexHome_directory hfile
  have hready := hr.withIndexHome
  have hopens : (c.withIndexHome h).Opens c.indexDir (c.indexHome h.cwd) := by
    have hindex : IsFileName "index" := by decide
    rw [← c.withIndexHome_cwd h] at hhome ⊢
    exact hready.opens.join hindex (by decide) hhome
  have hensure : (Action.ensureDirectory c.indexDir).run h = (.ok (), c.withIndexHome h) := by
    rw [hr.ensure_indexDir hu]
    rcases he : h.tree.entry? (c.indexHome h.cwd) with _ | ⟨content, changed⟩ | changed
    · rfl
    · exact absurd he (hfile content changed)
    · rfl
  have hsame : (Action.writeFile (c.indexPath source) content.toUTF8).run h =
      (Action.writeFile (c.indexPath source) content.toUTF8).run (c.withIndexHome h) := by
    rw [Action.writeFile_run, Action.writeFile_run, indexPath_directory, hensure,
      Action.ensureDirectory_opens hopens hu]
  have hwrite := Action.writeFile_below hopens (.inr hu) (isFileName_indexName source) content.toUTF8
  change (Action.writeFile (c.indexPath source) content.toUTF8).run _ =
    if FileTree.unusable? (c.indexPath source) = none ∧ (indexName source).utf8ByteSize ≤ FileTree.maxName ∧
      (c.withIndexHome h).tree.isDirectoryAt (c.indexPlace h.cwd source) = false then _ else _ at hwrite
  rw [Change.make_write_run, hsame, hwrite]
  by_cases hfits : FileTree.unusable? (c.indexPath source) = none ∧
      (indexName source).utf8ByteSize ≤ FileTree.maxName ∧
        (c.withIndexHome h).tree.isDirectoryAt (c.indexPlace h.cwd source) = false
  · rw [if_pos hfits, if_pos hfits]
    rfl
  · rw [if_neg hfits, if_neg hfits]
    rfl

theorem Ready.write_child_ok (hr : c.Ready h) (hname : IsFileName name) {content : String}
    (hrun : (Change.write (c.dir.join name) content).make.run h = (.ok (), h')) :
    c.Fits name ∧ h.tree.isDirectoryAt (c.root h.cwd ++ [name]) = false ∧
      h' = h.put (c.root h.cwd ++ [name]) content.toUTF8 := by
  rw [hr.write_child hname] at hrun
  split at hrun
  · next hfits => exact ⟨hfits.1, hfits.2, (Prod.mk.inj hrun).2.symm⟩
  · cases hrun

theorem Ready.write_index_ok (hr : c.Ready h) {source : Path} {content : String}
    (hrun : (Change.write (c.indexPath source) content).make.run h = (.ok (), h')) :
    FileTree.unusable? (c.indexPath source) = none ∧
      (indexName source).utf8ByteSize ≤ FileTree.maxName ∧
      (∀ content changed, h.tree.entry? (c.indexHome h.cwd) ≠ some (.file content changed)) ∧
      (c.withIndexHome h).tree.isDirectoryAt (c.indexPlace h.cwd source) = false ∧
      h' = (c.withIndexHome h).put (c.indexPlace h.cwd source) content.toUTF8 := by
  have hwrite : (Action.writeFile (c.indexPath source) content.toUTF8).run h = (.ok (), h') := by
    rw [Change.make_write_run] at hrun
    cases hresult : (Action.writeFile (c.indexPath source) content.toUTF8).run h with
    | mk result t =>
      rw [hresult] at hrun
      cases result with
      | error message => cases hrun
      | ok _ =>
        obtain ⟨-, rfl⟩ := Prod.mk.inj hrun
        rfl
  obtain ⟨t, l, hensure, htarget, -, -⟩ := Action.writeFile_eq_ok hwrite
  have hu := (FileTree.target_eq_ok htarget).usable
  have hfile : ∀ content changed, h.tree.entry? (c.indexHome h.cwd) ≠ some (.file content changed) := by
    intro content' changed he
    rw [indexPath_directory, hr.ensure_indexDir (unusable?_indexDir hu), he] at hensure
    cases hensure
  rw [hr.write_index (unusable?_indexDir hu) source content hfile] at hrun
  split at hrun
  · next hfits => exact ⟨hu, hfits.2.1, hfile, hfits.2.2, (Prod.mk.inj hrun).2.symm⟩
  · cases hrun

theorem Ready.put_child (hr : c.Ready h) (hname : IsFileName name)
    (hdir : h.tree.isDirectoryAt (c.root h.cwd ++ [name]) = false) (content : ByteArray) :
    c.Ready (h.put (c.root h.cwd ++ [name]) content) := by
  refine hr.of_directories ?_ rfl (Host.put_isDirectoryAt hdir content) ?_
  · refine hr.valid.put (proper_child hr.root_proper hname) ?_ hdir content
    simpa [Location.parent] using hr.opens.directory
  · rw [Host.put_entry?, if_neg root_ne_child]

theorem Ready.put_index (hr : c.Ready h) {source : Path} {changed : Instant}
    (hhome : h.tree.entry? (c.indexHome h.cwd) = some (.directory changed))
    (hdir : h.tree.isDirectoryAt (c.indexPlace h.cwd source) = false) (content : ByteArray) :
    c.Ready (h.put (c.indexPlace h.cwd source) content) := by
  refine hr.of_directories ?_ rfl (Host.put_isDirectoryAt hdir content) ?_
  · refine hr.valid.put ?_ ?_ hdir content
    · exact proper_child (proper_child hr.root_proper (by decide)) (isFileName_indexName source)
    · have hparent : (c.indexPlace h.cwd source).parent = c.indexHome h.cwd := by
        simp [indexPlace, Location.parent]
      rw [hparent]
      exact FileTree.isDirectoryAt_iff.mpr (.inr ⟨changed, hhome⟩)
  · rw [Host.put_entry?, if_neg (by simp [indexPlace, indexHome])]

theorem Ready.without_child (hr : c.Ready h)
    (hdir : h.tree.isDirectoryAt (c.root h.cwd ++ [name]) = false) :
    c.Ready (h.without (c.root h.cwd ++ [name])) := by
  refine hr.of_directories (hr.valid.without _) rfl (hr.valid.without_file_isDirectoryAt hdir) ?_
  rw [hr.valid.without_file_entry? hdir, if_neg root_ne_child]

-- A file of a cache is removed if it is there. There is nothing to do if nothing is there.
theorem Ready.remove_child (hr : c.Ready h) (hname : IsFileName name) (hfits : c.Fits name) :
    (Change.remove (c.dir.join name)).make.run h =
      match h.tree.entry? (c.root h.cwd ++ [name]) with
      | none => (.ok (), h)
      | some (.directory _) => (.error (.cache "remove" (c.dir.join name)
          s!"Failed to remove file: {(c.dir.join name).text}"), h)
      | some (.file _ _) => (.ok (), h.without (c.root h.cwd ++ [name])) := by
  rw [Change.make_remove_run, Action.removeFile_below hr.opens hname hfits.1 hfits.2]
  rcases h.tree.entry? (c.root h.cwd ++ [name]) with _ | ⟨content, changed⟩ | changed <;> rfl

-- A text was written to a file of a cache. Nothing else is new but the directory for indexes.
structure Wrote (c : Cache) (l : Location) (text : String) (h h' : Host) : Prop where
  ready : c.Ready h'
  cwd : h'.cwd = h.cwd
  clock : h'.clock = h.clock
  single : h.tree.Single → h'.tree.Single
  file : h'.tree.entry? l = some (.file text.toUTF8 h.clock)
  others : ∀ m, m ≠ l → m ≠ c.indexHome h.cwd → h'.tree.entry? m = h.tree.entry? m
  home : h'.tree.entry? (c.indexHome h.cwd) = h.tree.entry? (c.indexHome h.cwd) ∨
    h.tree.entry? (c.indexHome h.cwd) = none ∧
      h'.tree.entry? (c.indexHome h.cwd) = some (.directory h.clock)

variable {content : String} {source : Path}

theorem Ready.wrote_child (hr : c.Ready h) (hname : IsFileName name) (hindex : name ≠ "index")
    (hrun : (Change.write (c.dir.join name) content).make.run h = (.ok (), h')) :
    c.Fits name ∧ c.Wrote (c.root h.cwd ++ [name]) content h h' := by
  obtain ⟨hfits, hdir, rfl⟩ := hr.write_child_ok hname hrun
  have hhome : c.indexHome h.cwd ≠ c.root h.cwd ++ [name] := by
    intro heq
    exact hindex (List.singleton_inj.mp (List.append_cancel_left heq)).symm
  refine ⟨hfits, hr.put_child hname hdir _, rfl, rfl, fun hs => hs.set _ _, ?_, fun m hm _ => ?_, .inl ?_⟩
  · rw [Host.put_entry?, if_pos rfl]
  · rw [Host.put_entry?, if_neg hm]
  · rw [Host.put_entry?, if_neg hhome]

theorem withIndexHome_single (hs : h.tree.Single) : (c.withIndexHome h).tree.Single := by
  unfold withIndexHome
  split
  · exact hs
  · exact hs.set _ _

theorem Ready.wrote_index (hr : c.Ready h)
    (hrun : (Change.write (c.indexPath source) content).make.run h = (.ok (), h')) :
    FileTree.unusable? (c.indexPath source) = none ∧
      (indexName source).utf8ByteSize ≤ FileTree.maxName ∧
      c.Wrote (c.indexPlace h.cwd source) content h h' := by
  obtain ⟨hu, hlong, hfile, hdir, rfl⟩ := hr.write_index_ok hrun
  obtain ⟨changed, hhome⟩ := withIndexHome_directory hfile
  have hne : c.indexHome h.cwd ≠ c.indexPlace h.cwd source := by simp [indexPlace]
  have hready := hr.withIndexHome
  have hcwd := c.withIndexHome_cwd h
  refine ⟨hu, hlong, ?_, hcwd, c.withIndexHome_clock h, fun hs => (withIndexHome_single hs).set _ _, ?_,
    fun m hm hmhome => ?_, ?_⟩
  · rw [← hcwd] at hhome hdir ⊢
    exact hready.put_index hhome hdir _
  · rw [Host.put_entry?, if_pos rfl, withIndexHome_clock]
  · rw [Host.put_entry?, if_neg hm, withIndexHome_entry?, if_neg fun h => hmhome h.1]
  · rw [Host.put_entry?, if_neg hne, withIndexHome_entry?]
    cases he : h.tree.entry? (c.indexHome h.cwd) with
    | none => exact .inr ⟨rfl, if_pos ⟨rfl, rfl⟩⟩
    | some e => exact .inl (if_neg (by simp))

theorem made_trans {x y z : Option Entry} {e : Entry} (hxy : y = x ∨ x = none ∧ y = some e)
    (hyz : z = y ∨ y = none ∧ z = some e) : z = x ∨ x = none ∧ z = some e := by
  rcases hxy with rfl | ⟨hx, rfl⟩
  · exact hyz
  · rcases hyz with rfl | ⟨hy, -⟩
    · exact .inr ⟨hx, rfl⟩
    · cases hy

-- An entry and its index were written.
structure Stored (c : Cache) (k : Key) (code : String) (m : Metadata) (i : Index) (h h' : Host) : Prop where
  ready : c.Ready h'
  cwd : h'.cwd = h.cwd
  clock : h'.clock = h.clock
  single : h.tree.Single → h'.tree.Single
  fitsCode : c.Fits (k.digits ++ codeSuffix)
  fitsMeta : c.Fits (k.digits ++ metaSuffix)
  usableIndex : FileTree.unusable? (c.indexPath i.source) = none
  sizeIndex : (indexName i.source).utf8ByteSize ≤ FileTree.maxName
  code : h'.tree.entry? (c.codePlace h.cwd k) = some (.file code.toUTF8 h.clock)
  metadata : h'.tree.entry? (c.metaPlace h.cwd k) = some (.file m.text.toUTF8 h.clock)
  index : h'.tree.entry? (c.indexPlace h.cwd i.source) = some (.file i.text.toUTF8 h.clock)
  others : ∀ l, l ≠ c.codePlace h.cwd k → l ≠ c.metaPlace h.cwd k → l ≠ c.indexPlace h.cwd i.source →
    l ≠ c.indexHome h.cwd → h'.tree.entry? l = h.tree.entry? l
  home : h'.tree.entry? (c.indexHome h.cwd) = h.tree.entry? (c.indexHome h.cwd) ∨
    h.tree.entry? (c.indexHome h.cwd) = none ∧
      h'.tree.entry? (c.indexHome h.cwd) = some (.directory h.clock)

theorem Ready.stored (hr : c.Ready h) (hk : k.Plain) {code : String} {m : Metadata}
    {resolutions : List Compile.Resolution} (hrun : (c.store k code m resolutions).run h = (.ok (), h')) :
    c.Stored k code m ⟨m.source, m.dependencies, resolutions⟩ h h' := by
  obtain ⟨t, hcode, hrun⟩ := Change.makeAll_cons_ok hrun
  obtain ⟨u, hmeta, hrun⟩ := Change.makeAll_cons_ok hrun
  obtain ⟨v, hindex, hrun⟩ := Change.makeAll_cons_ok hrun
  obtain rfl := Change.makeAll_nil_ok hrun
  obtain ⟨hfits, hc⟩ := hr.wrote_child hk.isFileName_code (append_ne_index (by decide)) hcode
  obtain ⟨hfits', hm⟩ := hc.ready.wrote_child hk.isFileName_meta (append_ne_index (by decide)) hmeta
  obtain ⟨hu, hlong, hi⟩ := hm.ready.wrote_index hindex
  -- The three files and the directory for indexes are at different places.
  have hcode' := (hm.others (c.codePlace t.cwd k) (codePlace_ne_metaPlace _ _)
    (codePlace_ne_indexHome _)).trans (hc.cwd ▸ hc.file)
  have hcode'' := (hi.others (c.codePlace u.cwd k) (codePlace_ne_indexPlace _ _)
    (codePlace_ne_indexHome _)).trans (hm.cwd ▸ hcode')
  have hmeta' := (hi.others (c.metaPlace u.cwd k) (metaPlace_ne_indexPlace _ _)
    (metaPlace_ne_indexHome _)).trans (hm.cwd ▸ hm.file)
  have hcwd := hm.cwd.trans hc.cwd
  have hclock := hm.clock.trans hc.clock
  refine ⟨hi.ready, hi.cwd.trans hcwd, hi.clock.trans hclock, fun hs => hi.single (hm.single (hc.single hs)),
    hfits, hfits', hu, hlong, hcwd ▸ hcode'', ?_, ?_, fun l hlc hlm hli hlh => ?_, ?_⟩
  · rw [← hcwd, ← hc.clock]
    exact hmeta'
  · rw [← hcwd, ← hclock]
    exact hi.file
  · rw [hi.others l (hcwd ▸ hli) (hcwd ▸ hlh), hm.others l (hc.cwd ▸ hlm) (hc.cwd ▸ hlh), hc.others l hlc hlh]
  · have hhome := hm.home
    have hhome' := hi.home
    rw [hc.cwd, hc.clock] at hhome
    rw [hcwd, hclock] at hhome'
    exact made_trans (made_trans hc.home hhome) hhome'

-- A file of a cache that is removed is all that goes.
theorem Ready.removed_child (hr : c.Ready h) (hname : IsFileName name)
    (hrun : (Change.remove (c.dir.join name)).make.run h = (.ok (), h')) :
    c.Ready h' ∧ h'.cwd = h.cwd ∧ h'.clock = h.clock ∧ (h.tree.Single → h'.tree.Single) ∧
      ∀ l, h'.tree.entry? l = if l = c.root h.cwd ++ [name] then none else h.tree.entry? l := by
  have hplace : FileTree.place h.cwd (c.dir.join name) = c.root h.cwd ++ [name] :=
    FileTree.place_join h.cwd c.dir hname
  rw [Change.make_remove_run] at hrun
  cases hremove : (Action.removeFile (c.dir.join name)).run h with
  | mk result t =>
    rw [hremove] at hrun
    cases result with
    | error message => cases hrun
    | ok removed =>
      obtain ⟨-, rfl⟩ := Prod.mk.inj hrun
      rcases Action.removeFile_cases hremove with ⟨rfl, hmissing, hother⟩ | ⟨-, -, hdir, rfl⟩
      · cases removed with
        | true => exact absurd rfl hother
        | false =>
          have hnone := hr.opens.entry?_of_missing hname (hmissing rfl)
          refine ⟨hr, rfl, rfl, id, fun l => ?_⟩
          split
          · next hl => rw [hl, hnone]
          · rfl
      · rw [hplace] at hdir ⊢
        exact ⟨hr.without_child hdir, rfl, rfl, fun hs => hs.erase _, hr.valid.without_file_entry? hdir⟩

-- The two files of an entry are gone, and nothing else.
structure Removed (c : Cache) (k : Key) (h h' : Host) : Prop where
  ready : c.Ready h'
  cwd : h'.cwd = h.cwd
  clock : h'.clock = h.clock
  single : h.tree.Single → h'.tree.Single
  entries : ∀ l, h'.tree.entry? l =
    if l = c.codePlace h.cwd k ∨ l = c.metaPlace h.cwd k then none else h.tree.entry? l

theorem Ready.removed (hr : c.Ready h) (hk : k.Plain) (hrun : (c.remove k).run h = (.ok (), h')) :
    c.Removed k h h' := by
  obtain ⟨t, hfirst, hrun⟩ := Change.makeAll_cons_ok hrun
  obtain ⟨u, hlast, hrun⟩ := Change.makeAll_cons_ok hrun
  obtain rfl := Change.makeAll_nil_ok hrun
  obtain ⟨hready, hcwd, hclock, hsingle, hentries⟩ := hr.removed_child hk.isFileName_meta hfirst
  obtain ⟨hready', hcwd', hclock', hsingle', hentries'⟩ := hready.removed_child hk.isFileName_code hlast
  have hfirst : ∀ l, t.tree.entry? l = if l = c.metaPlace h.cwd k then none else h.tree.entry? l := hentries
  have hlast : ∀ l, h'.tree.entry? l = if l = c.codePlace t.cwd k then none else t.tree.entry? l := hentries'
  refine ⟨hready', hcwd'.trans hcwd, hclock'.trans hclock, fun hs => hsingle' (hsingle hs), fun l => ?_⟩
  rw [hlast, hfirst, hcwd]
  by_cases hcode : l = c.codePlace h.cwd k <;> simp [hcode]

-- Whether the way to the directory of a cache leads by none of the places of the cache.
def Apart (c : Cache) (cwd : Location) : Prop :=
  ∀ l ∈ FileTree.way (FileTree.start cwd c.dir) (FileTree.stepNames c.dir), ¬c.Owns cwd l

-- So it is while nothing is in the cache.
theorem Ready.apart (hr : c.Ready h) (hvacant : c.Vacant h) : c.Apart h.cwd := by
  intro l hl howns
  have hdir := FileTree.isDirectoryAt_of_mem_way hr.opens.walk hr.opens.directory hl
  rcases FileTree.isDirectoryAt_iff.mp hdir with rfl | ⟨changed, he⟩
  · exact howns.ne_nil rfl
  · rw [hvacant l howns] at he
    cases he

-- What happens to the places of a cache does not close the way to its directory.
theorem Ready.of_sameBut (hr : c.Ready h) (hapart : c.Apart h.cwd) (hs : h.SameBut (c.Owns h.cwd) h')
    (hv : h'.Valid) : c.Ready h' := by
  have hway : ∀ m ∈ h.tree.visited (FileTree.start h.cwd c.dir) (FileTree.stepNames c.dir),
      h'.tree.entry? m = h.tree.entry? m := by
    intro m hm
    rw [FileTree.visited_of_walk hr.opens.walk] at hm
    exact hs.entries m (hapart m hm)
  have hroot := hway _ (FileTree.mem_visited_of_walk hr.opens.walk)
  refine ⟨hv, ⟨?_, ?_, ?_⟩, hr.usable⟩
  · rw [hs.cwd, (FileTree.walk_congr hway).1]
    exact hr.opens.walk
  · rw [hs.cwd, FileTree.isDirectoryAt_congr hroot]
    exact hr.opens.directory
  · rw [hs.cwd, hroot]
    exact hr.opens.shown

end TemplateEngine.Cache
