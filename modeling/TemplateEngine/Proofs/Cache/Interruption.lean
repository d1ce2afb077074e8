import TemplateEngine.Proofs.Cache.Entries
import TemplateEngine.Proofs.Cache.Filing
import Mathlib.Logic.Relation

-- Calls that break off. Whichever of its changes a call stops at, all metadata has its code: an entry
-- gets its code first and loses it last.
namespace TemplateEngine

-- Some of what stands at a place and below is gone.
structure Host.Prunes (place : Location) (h h' : Host) : Prop where
  cwd : h'.cwd = h.cwd
  valid : h.Valid → h'.Valid
  entries : ∀ l, h'.tree.entry? l = h.tree.entry? l ∨ place <+: l ∧ h'.tree.entry? l = none

namespace Cache

variable {c : Cache} {h h' : Host} {k : Key} {change : Change} {changes : List Change}

namespace Change

-- What a change that fails may leave behind: the directories for a file that is not there yet, or a
-- part of a tree.
inductive Fails : Change → Host → Host → Prop where
  | write {path : Path} {content : String} {h h' : Host} (hg : h.Grows h') : Fails (.write path content) h h'
  | remove {path : Path} {h : Host} : Fails (.remove path) h h
  | removeTree {path : Path} {h h' : Host} (hp : h.Prunes (FileTree.place h.cwd path) h') :
      Fails (.removeTree path) h h'

-- Changes are made one after the other, and the first that fails is the last.
inductive Breaks : List Change → Host → Host → Prop where
  | done {h : Host} : Breaks [] h h
  | fails {change : Change} {changes : List Change} {h h' : Host} (hf : change.Fails h h') :
      Breaks (change :: changes) h h'
  | made {change : Change} {changes : List Change} {h t h' : Host} (hrun : change.make.run h = (.ok (), t))
      (hb : Breaks changes t h') : Breaks (change :: changes) h h'

theorem prunes_refl (place : Location) (h : Host) : h.Prunes place h := ⟨rfl, id, fun _ => .inl rfl⟩

theorem prunes_erase (h : Host) (l : Location) : h.Prunes l { h with tree := h.tree.erase l } := by
  refine ⟨rfl, fun hv => ⟨hv.tree.erase l, hv.cwd⟩, fun m => ?_⟩
  dsimp only
  rw [FileTree.entry?_erase]
  split
  · next hlm => exact .inr ⟨hlm, rfl⟩
  · exact .inl rfl

-- A change that fails in its own way is one that fails.
theorem make_fails {failure : Failure} (hv : h.Valid) (hrun : change.make.run h = (.error failure, h')) :
    change.Fails h h' := by
  cases change with
  | write path content =>
    rw [make_write_run] at hrun
    cases hwrite : (Action.writeFile path content.toUTF8).run h with
    | mk result t =>
      rw [hwrite] at hrun
      cases result with
      | ok _ => cases hrun
      | error message =>
        obtain ⟨-, rfl⟩ := Prod.mk.inj hrun
        rcases Action.writeFile_cases hwrite with ⟨-, -, hg⟩ | ⟨hok, -⟩
        · exact .write hg
        · cases hok
  | remove path =>
    rw [make_remove_run] at hrun
    cases hremove : (Action.removeFile path).run h with
    | mk result t =>
      rw [hremove] at hrun
      cases result with
      | ok _ => cases hrun
      | error message =>
        obtain ⟨-, rfl⟩ := Prod.mk.inj hrun
        rcases Action.removeFile_cases hremove with ⟨rfl, -⟩ | ⟨hok, -⟩
        · exact .remove
        · cases hok
  | removeTree path =>
    have hsame : h' = h := by
      rw [make_removeTree_run] at hrun
      split at hrun
      · split at hrun
        · exact (Prod.mk.inj hrun).2.symm
        · split at hrun
          · cases hrun
          · exact (Prod.mk.inj hrun).2.symm
      · cases hrun
    rw [hsame]
    exact .removeTree (prunes_refl _ _)

theorem makeAll_breaks (changes : List Change) (hv : h.Valid) : Breaks changes h ((makeAll changes).run h).2 := by
  induction changes generalizing h with
  | nil => exact .done
  | cons change changes ih =>
    have hvalid := (make_adds change h).valid hv
    rw [makeAll_cons_run]
    cases hrun : change.make.run h with
    | mk result t =>
      rw [hrun] at hvalid
      cases result with
      | error failure => exact .fails (make_fails hv hrun)
      | ok _ => exact .made hrun (ih hvalid)

end Change

-- The calls, each of which may stop at any of its changes. When a cache is cleared, entries that
-- cannot be read just then may be passed over. Between calls time goes by.
inductive Called (c : Cache) : Host → Host → Prop where
  | store {h h' : Host} {k : Key} (hk : k.Plain) (code : String) (m : Metadata)
      (resolutions : List Compile.Resolution) (hb : Change.Breaks (c.storing k code m resolutions) h h') :
      Called c h h'
  | remove {h h' : Host} {k : Key} (hk : k.Plain) (hb : Change.Breaks (c.removing k) h h') : Called c h h'
  | clear {h h' : Host} {keys : List Key} (hkeys : ∀ k ∈ keys, k.Plain)
      (hb : Change.Breaks (c.clearing keys) h h') : Called c h h'
  | tick {h : Host} (now : Instant) : Called c h { h with clock := now }

-- Whether the code of an entry is there.
def HasCode (c : Cache) (h : Host) (k : Key) : Prop :=
  ∃ (code : String) (changed : Instant),
    h.tree.entry? (c.codePlace h.cwd k) = some (.file code.toUTF8 changed)

def HasMeta (c : Cache) (h : Host) (k : Key) : Prop :=
  ∃ content changed, h.tree.entry? (c.metaPlace h.cwd k) = some (.file content changed)

-- What every change keeps: where there is metadata there is code.
structure Backed (c : Cache) (h : Host) : Prop where
  valid : h.Valid
  code : ∀ k, c.HasMeta h k → c.HasCode h k

variable {inside : Location → Prop}

theorem HasCode.of_sameFiles (hc : c.HasCode h k) (hf : h.SameFiles inside h')
    (hout : ¬inside (c.codePlace h.cwd k)) : c.HasCode h' k := by
  obtain ⟨code, changed, he⟩ := hc
  refine ⟨code, changed, ?_⟩
  rw [hf.cwd]
  exact (hf.files _ hout _ _).mpr he

-- Only entries that a change touches have to be looked at.
theorem Backed.of_sameFiles (hb : c.Backed h) (hv : h'.Valid) (hf : h.SameFiles inside h')
    (htouched : ∀ k, inside (c.codePlace h.cwd k) ∨ inside (c.metaPlace h.cwd k) → c.HasMeta h' k →
      c.HasCode h' k) : c.Backed h' := by
  refine ⟨hv, fun k hm => ?_⟩
  by_cases hin : inside (c.codePlace h.cwd k) ∨ inside (c.metaPlace h.cwd k)
  · exact htouched k hin hm
  · rw [not_or] at hin
    obtain ⟨content, changed, he⟩ := hm
    rw [hf.cwd] at he
    exact (hb.code k ⟨content, changed, (hf.files _ hin.2 _ _).mp he⟩).of_sameFiles hf hin.1

theorem Backed.grows (hb : c.Backed h) (hg : h.Grows h') : c.Backed h' :=
  hb.of_sameFiles (hg.valid hb.valid) hg.sameFiles fun _ hin => (hin.elim id id).elim

theorem Backed.prunes (hb : c.Backed h) (hp : h.Prunes (c.indexHome h.cwd) h') : c.Backed h' := by
  have hsame : h.SameFiles (c.indexHome h.cwd <+: ·) h' := by
    refine ⟨hp.cwd, fun l hl content changed => ?_⟩
    rcases hp.entries l with he | ⟨hin, -⟩
    · rw [he]
    · exact absurd hin hl
  refine hb.of_sameFiles (hp.valid hb.valid) hsame fun k hin _ => ?_
  rcases hin with hin | hin
  · exact absurd hin (not_indexHome_prefix_code k)
  · exact absurd hin (not_indexHome_prefix_meta k)

-- What a file that was written leaves: itself, and all other files.
theorem write_made {p : Path} {content : String} (hv : h.Valid)
    (hrun : (Change.write p content).make.run h = (.ok (), h')) :
    h'.Valid ∧ h.SameFiles (· = FileTree.place h.cwd p) h' ∧
      ∃ changed, h'.tree.entry? (FileTree.place h.cwd p) = some (.file content.toUTF8 changed) := by
  rw [Change.make_write_run] at hrun
  cases hwrite : (Action.writeFile p content.toUTF8).run h with
  | mk result t =>
    rw [hwrite] at hrun
    cases result with
    | error message => cases hrun
    | ok _ =>
      obtain ⟨-, rfl⟩ := Prod.mk.inj hrun
      rcases Action.writeFile_cases hwrite with ⟨message, hok, -⟩ | ⟨-, u, hg, rfl, hvalid⟩
      · cases hok
      · refine ⟨hvalid (hg.valid hv), ⟨hg.cwd, fun l hl content' changed' => ?_⟩, u.clock, ?_⟩
        · rw [Host.put_entry?, if_neg hl]
          exact hg.file_iff l content' changed'
        · rw [Host.put_entry?, if_pos rfl]

theorem remove_made {p : Path} (hv : h.Valid) (hrun : (Change.remove p).make.run h = (.ok (), h')) :
    h' = h ∧ h.resolve p = .error .missing ∨
      h.resolve p = .ok (FileTree.place h.cwd p) ∧ h'.Valid ∧ h.SameFiles (· = FileTree.place h.cwd p) h' ∧
        h'.tree.entry? (FileTree.place h.cwd p) = none := by
  rw [Change.make_remove_run] at hrun
  cases hremove : (Action.removeFile p).run h with
  | mk result t =>
    rw [hremove] at hrun
    cases result with
    | error message => cases hrun
    | ok removed =>
      obtain ⟨-, rfl⟩ := Prod.mk.inj hrun
      rcases Action.removeFile_cases hremove with ⟨rfl, hmissing, hother⟩ | ⟨-, hr, hdir, rfl⟩
      · cases removed with
        | false => exact .inl ⟨rfl, hmissing rfl⟩
        | true => exact absurd rfl hother
      · refine .inr ⟨hr, hv.without _, ⟨rfl, fun l hl content changed => ?_⟩, ?_⟩
        · rw [hv.without_file_entry? hdir, if_neg hl]
        · rw [hv.without_file_entry? hdir, if_pos rfl]

theorem Backed.store {code : String} {m : Metadata} {resolutions : List Compile.Resolution}
    (hb : c.Backed h) (hk : k.Plain) (hbreaks : Change.Breaks (c.storing k code m resolutions) h h') :
    c.Backed h' := by
  cases hbreaks with
  | fails hf =>
    cases hf with
    | write hg => exact hb.grows hg
  | @made _ _ _ t _ hrun hbreaks =>
    obtain ⟨hvalid, hsame, changed, he⟩ := write_made hb.valid hrun
    rw [place_codePath_eq c h.cwd hk] at hsame he
    -- The code is there from now on, so that the metadata may come.
    have hcode : c.HasCode t k := ⟨code, changed, hsame.cwd ▸ he⟩
    have hb : c.Backed t := by
      refine hb.of_sameFiles hvalid hsame fun k' hin _ => ?_
      rcases hin with hin | hin
      · rwa [codePlace_inj hin]
      · exact absurd hin.symm (codePlace_ne_metaPlace _ _)
    cases hbreaks with
    | fails hf =>
      cases hf with
      | write hg => exact hb.grows hg
    | @made _ _ _ u _ hrun hbreaks =>
      obtain ⟨hvalid, hsame, -⟩ := write_made hb.valid hrun
      rw [place_metaPath_eq c t.cwd hk] at hsame
      have hcode : c.HasCode u k := hcode.of_sameFiles hsame (codePlace_ne_metaPlace _ _)
      have hb : c.Backed u := by
        refine hb.of_sameFiles hvalid hsame fun k' hin _ => ?_
        rcases hin with hin | hin
        · exact absurd hin (codePlace_ne_metaPlace _ _)
        · rwa [metaPlace_inj hin]
      cases hbreaks with
      | fails hf =>
        cases hf with
        | write hg => exact hb.grows hg
      | made hrun hbreaks =>
        obtain ⟨hvalid, hsame, -⟩ := write_made hb.valid hrun
        rw [place_indexPath_eq] at hsame
        cases hbreaks
        refine hb.of_sameFiles hvalid hsame fun k' hin _ => ?_
        rcases hin with hin | hin
        · exact absurd (hin ▸ indexHome_prefix_index _) (not_indexHome_prefix_code k')
        · exact absurd (hin ▸ indexHome_prefix_index _) (not_indexHome_prefix_meta k')

theorem resolve_metaPath (hk : k.Plain) {l : Location} (hr : h.resolve (c.codePath k) = .ok l)
    (hm : c.HasMeta h k) : h.resolve (c.metaPath k) = .ok (c.metaPlace h.cwd k) := by
  obtain ⟨content, changed, he⟩ := hm
  refine Host.resolve_twin hk.isFileName_code hk.isFileName_meta (Nat.le_of_eq (size_code_eq_meta k).symm) hr ?_
  change (h.tree.entry? (c.metaPlace h.cwd k)).isSome = true
  rw [he]
  rfl

theorem Backed.remove (hb : c.Backed h) (hk : k.Plain) (hbreaks : Change.Breaks (c.removing k) h h') :
    c.Backed h' := by
  cases hbreaks with
  | fails hf =>
    cases hf
    exact hb
  | @made _ _ _ t _ hrun hbreaks =>
    -- Where the metadata is still there, no path leads to it, and none to the code.
    have hgone : c.Backed t ∧ (c.HasMeta t k → ∀ l, t.resolve (c.codePath k) ≠ .ok l) := by
      rcases remove_made hb.valid hrun with ⟨rfl, hmissing⟩ | ⟨-, hvalid, hsame, hnone⟩
      · refine ⟨hb, fun hm l hr => ?_⟩
        rw [resolve_metaPath hk hr hm] at hmissing
        cases hmissing
      · rw [place_metaPath_eq c h.cwd hk] at hsame hnone
        have hnone' : ¬c.HasMeta t k := by
          rintro ⟨content, changed, he⟩
          rw [hsame.cwd, hnone] at he
          cases he
        refine ⟨hb.of_sameFiles hvalid hsame fun k' hin hm => ?_, fun hm => absurd hm hnone'⟩
        rcases hin with hin | hin
        · exact absurd hin (codePlace_ne_metaPlace _ _)
        · rw [metaPlace_inj hin] at hm
          exact absurd hm hnone'
    obtain ⟨hb, hunreached⟩ := hgone
    cases hbreaks with
    | fails hf =>
      cases hf
      exact hb
    | made hrun hbreaks =>
      cases hbreaks
      rcases remove_made hb.valid hrun with ⟨rfl, -⟩ | ⟨hr, hvalid, hsame, -⟩
      · exact hb
      · rw [place_codePath_eq c t.cwd hk] at hsame
        refine hb.of_sameFiles hvalid hsame fun k' hin hm => ?_
        rcases hin with hin | hin
        · obtain rfl := codePlace_inj hin
          obtain ⟨content, changed, he⟩ := hm
          rw [hsame.cwd, hsame.files _ (codePlace_ne_metaPlace _ _).symm] at he
          exact absurd hr (hunreached ⟨content, changed, he⟩ _)
        · exact absurd hin.symm (codePlace_ne_metaPlace _ _)

theorem Change.Breaks.append {front back : List Change} (hb : Breaks (front ++ back) h h') :
    Breaks front h h' ∨ ∃ t, Breaks front h t ∧ Breaks back t h' := by
  induction front generalizing h with
  | nil => exact .inr ⟨h, .done, hb⟩
  | cons change front ih =>
    cases hb with
    | fails hf => exact .inl (.fails hf)
    | made hrun hb =>
      rcases ih hb with hb | ⟨t, hfront, hback⟩
      · exact .inl (.made hrun hb)
      · exact .inr ⟨t, .made hrun hfront, hback⟩

theorem removeTree_made {p : Path} (hrun : (Change.removeTree p).make.run h = (.ok (), h')) :
    h.Prunes (FileTree.place h.cwd p) h' := by
  rw [Change.make_removeTree_run] at hrun
  split at hrun
  · split at hrun
    · cases hrun
    next l hr =>
    split at hrun
    · obtain ⟨-, rfl⟩ := Prod.mk.inj hrun
      rw [← (FileTree.resolve_eq_ok hr).2]
      exact Change.prunes_erase h l
    · cases hrun
  · obtain ⟨-, rfl⟩ := Prod.mk.inj hrun
    exact Change.prunes_refl _ _

theorem Backed.clear {keys : List Key} (hkeys : ∀ k ∈ keys, k.Plain) (hb : c.Backed h)
    (hbreaks : Change.Breaks (c.clearing keys) h h') : c.Backed h' := by
  unfold clearing at hbreaks
  induction keys generalizing h with
  | nil =>
    have hplace : FileTree.place h.cwd c.indexDir = c.indexHome h.cwd := place_indexDir c h.cwd
    cases hbreaks with
    | fails hf =>
      cases hf with
      | removeTree hp => exact hb.prunes (hplace ▸ hp)
    | made hrun hbreaks =>
      cases hbreaks
      exact hb.prunes (hplace ▸ removeTree_made hrun)
  | cons k keys ih =>
    obtain ⟨hk, hkeys⟩ := List.forall_mem_cons.mp hkeys
    rw [List.flatMap_cons, List.append_assoc] at hbreaks
    rcases hbreaks.append with hbreaks | ⟨t, hfirst, hbreaks⟩
    · exact hb.remove hk hbreaks
    · exact ih hkeys (hb.remove hk hfirst) hbreaks

-- No call breaks up an entry, wherever it stops.
theorem Backed.called (hb : c.Backed h) (hc : c.Called h h') : c.Backed h' := by
  cases hc with
  | store hk code m resolutions hbreaks => exact hb.store hk hbreaks
  | remove hk hbreaks => exact hb.remove hk hbreaks
  | clear hkeys hbreaks => exact hb.clear hkeys hbreaks
  | tick now => exact ⟨⟨hb.valid.tree, hb.valid.cwd⟩, hb.code⟩

theorem backed_of_vacant (hv : h.Valid) (hvacant : c.Vacant h) : c.Backed h := by
  refine ⟨hv, fun k hm => ?_⟩
  obtain ⟨content, changed, he⟩ := hm
  rw [hvacant _ (owns_meta k)] at he
  cases he

theorem Backed.of_calls (hb : c.Backed h) (hc : Relation.ReflTransGen c.Called h h') : c.Backed h' := by
  induction hc with
  | refl => exact hb
  | tail _ hc ih => exact ih.called hc

-- The operations of a cache are such calls, whether they succeed or fail.
theorem called_store (hv : h.Valid) (hk : k.Plain) (code : String) (m : Metadata)
    (resolutions : List Compile.Resolution) : c.Called h ((c.store k code m resolutions).run h).2 :=
  .store hk code m resolutions (Change.makeAll_breaks _ hv)

theorem called_remove (hv : h.Valid) (hk : k.Plain) : c.Called h ((c.remove k).run h).2 :=
  .remove hk (Change.makeAll_breaks _ hv)

theorem called_clear (hv : h.Valid) : Relation.ReflTransGen c.Called h (c.clear.run h).2 := by
  rw [clear_run]
  cases hall : c.entries h with
  | error failure => exact .refl
  | ok all =>
    have hkeys : ∀ k ∈ all.map (·.1), k.Plain := by
      intro k hk
      obtain ⟨entry, hentry, rfl⟩ := List.mem_map.mp hk
      exact plain_of_mem_entries hv hall hentry
    have hbreaks := Change.makeAll_breaks (c.clearing (all.map (·.1))) hv
    dsimp only
    cases hrun : (Change.makeAll (c.clearing (all.map (·.1)))).run h with
    | mk result h' =>
      rw [hrun] at hbreaks
      cases result <;> exact .single (.clear hkeys hbreaks)

-- After any calls on a cache that was empty at first, each of which was completed or stopped at any of
-- its changes, where there is a file of metadata there is one of code, and it can be read: an entry
-- whose metadata is good is found.
theorem code_of_metadata (c : Cache) (start h : Host) (k : Key) (hv : start.Valid)
    (hvacant : c.Vacant start) (hcalls : Relation.ReflTransGen c.Called start h) (hk : k.Plain)
    (hm : h.isFile (c.metaPath k) = true) :
    ∃ code, h.read (c.codePath k) = .ok code ∧
      ∀ m, metadataAt? h (c.metaPath k) = some m → m.isFresh h = true → c.lookup h k = .fresh code m := by
  have hb := (backed_of_vacant hv hvacant).of_calls hcalls
  unfold Host.isFile Host.entryAt at hm
  cases hr : h.resolve (c.metaPath k) with
  | error fault =>
    rw [hr] at hm
    cases hm
  | ok l =>
    have hpresent : h.present (c.metaPath k) = true := by
      unfold Host.present
      rw [hr]
      rfl
    obtain rfl : l = c.metaPlace h.cwd k :=
      (FileTree.resolve_eq_ok hr).2.trans (place_metaPath_eq c h.cwd hk)
    have hmeta : c.HasMeta h k := by
      rw [hr] at hm
      unfold HasMeta
      rcases he : h.tree.entry? (c.metaPlace h.cwd k) with _ | ⟨content, changed⟩ | changed
      · simp [he, Entry.isFile] at hm
      · exact ⟨content, changed, rfl⟩
      · simp [he, Entry.isFile] at hm
    obtain ⟨code, changed, he⟩ := hb.code k hmeta
    have hcode : h.resolve (c.codePath k) = .ok (c.codePlace h.cwd k) := by
      refine Host.resolve_twin hk.isFileName_meta hk.isFileName_code
        (Nat.le_of_eq (size_code_eq_meta k)) hr ?_
      change (h.tree.entry? (c.codePlace h.cwd k)).isSome = true
      rw [he]
      rfl
    have hread : h.read (c.codePath k) = .ok code := by
      unfold Host.read
      rw [hcode]
      exact Host.textAt_of_file he
    refine ⟨code, hread, fun m hfound hfresh => ?_⟩
    unfold lookup
    rw [hpresent, hfound]
    dsimp only
    rw [if_pos rfl, if_pos hfresh, hread]

def drawer : Host where
  tree := ⟨[(["c"], .directory ⟨0, 0⟩)]⟩
  cwd := []
  clock := ⟨4, 0⟩
  cacheHome := none

def drawerCache : Cache := ⟨⟨"c"⟩⟩

def drawerEntry : Metadata := ⟨⟨"/p"⟩, [], ⟨4, 0⟩⟩

def drawerStored : Host := ((drawerCache.store ⟨"ab"⟩ "old" drawerEntry []).run drawer).2

def drawerChange : Change := .write (drawerCache.codePath ⟨"ab"⟩) "new"

-- An entry is stored, and stored again with other code, which breaks off at the metadata.
theorem code_of_metadata_drawer : drawerCache.Vacant drawer ∧ ∃ h,
    Relation.ReflTransGen drawerCache.Called drawer h ∧
      h.isFile (drawerCache.metaPath ⟨"ab"⟩) = true ∧
      h.read (drawerCache.codePath ⟨"ab"⟩) = .ok "new" := by
  have hvalid : drawer.Valid := ⟨.of_entries (by decide), by decide⟩
  have hvacant : drawerCache.Vacant drawer := vacant_of_entries (by decide)
  have hk : Key.Plain ⟨"ab"⟩ := ⟨by decide, by decide⟩
  have hstored : drawerCache.Called drawer drawerStored := called_store hvalid hk _ _ _
  have hruns : (drawerChange.make.run drawerStored).1.toBool = true ∧
      (drawerChange.make.run drawerStored).2.isFile (drawerCache.metaPath ⟨"ab"⟩) = true ∧
      ((drawerChange.make.run drawerStored).2.read (drawerCache.codePath ⟨"ab"⟩)).toOption = some "new" := by
    decide +kernel
  cases hrun : drawerChange.make.run drawerStored with
  | mk result h =>
    rw [hrun] at hruns
    obtain ⟨hok, hmeta, hread⟩ := hruns
    cases result with
    | error failure => cases hok
    | ok _ =>
      have hagain : drawerCache.Called drawerStored h :=
        .store hk "new" drawerEntry [] (.made hrun (.fails (.write (Host.Grows.refl h))))
      have hcalls := Relation.ReflTransGen.single hstored |>.tail hagain
      obtain ⟨code, hcode, -⟩ := code_of_metadata drawerCache drawer h ⟨"ab"⟩ hvalid hvacant hcalls hk hmeta
      rw [hcode] at hread
      cases hread
      exact ⟨hvacant, h, hcalls, hmeta, hcode⟩

end Cache

end TemplateEngine
