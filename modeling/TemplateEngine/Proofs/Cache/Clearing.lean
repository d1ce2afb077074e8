import TemplateEngine.Proofs.Cache.Contents

-- What is left of a cache that is cleared. The entries whose metadata can be read go, and so do all
-- indexes. Entries that are not listed stay: code without metadata, and damaged metadata with its code.
namespace TemplateEngine

-- All that stands at places inside is gone, and nothing else.
structure Host.Empties (inside : Location → Prop) (h h' : Host) : Prop extends h.SameBut inside h' where
  clock : h'.clock = h.clock
  gone : ∀ l, inside l → h'.tree.entry? l = none

namespace Host

variable {h t h' : Host} {inside inside' : Location → Prop} {p : Path} {name : String} {l : Location}

theorem Empties.refl (h : Host) : h.Empties (fun _ => False) h := ⟨.refl _ h, rfl, fun _ => False.elim⟩

theorem Empties.trans (he : h.Empties inside t) (he' : t.Empties inside' h') :
    h.Empties (fun l => inside l ∨ inside' l) h' := by
  refine ⟨⟨he'.cwd.trans he.cwd, fun l hl => ?_⟩, he'.clock.trans he.clock, fun l hl => ?_⟩
  · rw [not_or] at hl
    rw [he'.entries l hl.2, he.entries l hl.1]
  · by_cases hin : inside' l
    · exact he'.gone l hin
    · rw [he'.entries l hin, he.gone l (hl.resolve_right hin)]

theorem Empties.congr (he : h.Empties inside h') (hin : ∀ l, inside l ↔ inside' l) :
    h.Empties inside' h' := by
  obtain rfl : inside = inside' := funext fun l => propext (hin l)
  exact he

-- What is left stood there before.
theorem Empties.isSome_of (he : h.Empties inside h') (hl : (h'.tree.entry? l).isSome = true) :
    ¬inside l ∧ (h.tree.entry? l).isSome = true := by
  have hout : ¬inside l := by
    intro hin
    rw [he.gone l hin] at hl
    cases hl
  exact ⟨hout, he.entries l hout ▸ hl⟩

-- A name joined to a path leads only to what has it, whatever the way there.
theorem resolve_join_eq_ok (hname : IsFileName name) (hr : h.resolve (p.join name) = .ok l) :
    FileTree.unusable? (p.join name) = none ∧ name.utf8ByteSize ≤ FileTree.maxName ∧
      (h.tree.entry? l).isSome = true := by
  obtain ⟨names, hjoin, -⟩ := Path.stepNames_join p
  obtain ⟨hu, -⟩ := FileTree.resolve_eq_ok hr
  unfold Host.resolve FileTree.resolve at hr
  rw [hu] at hr
  dsimp only at hr
  rw [hjoin name hname, FileTree.walk_append] at hr
  obtain ⟨m, -, hlast⟩ := bind_eq_ok hr
  have hdots : name ∉ ["", ".", ".."] := by simp [hname.1, hname.2.1, hname.2.2.1]
  obtain ⟨n, hstep, hend⟩ := FileTree.walk_cons_eq_ok hlast
  cases hend
  obtain ⟨-, -, hstep⟩ := FileTree.step_eq_ok_iff.mp hstep
  obtain ⟨hlong, hsome⟩ := hstep.resolve_left hdots
  exact ⟨hu, hlong, hsome⟩

end Host

namespace Cache

variable {c : Cache} {h t h' : Host} {k : Key} {m : Metadata} {keys : List Key}

-- Whether an entry has metadata that can be read, or metadata that cannot.
def Readable (c : Cache) (h : Host) (k : Key) : Prop := ∃ m, metadataAt? h (c.metaPath k) = some m

def Damaged (c : Cache) (h : Host) (k : Key) : Prop :=
  h.present (c.metaPath k) = true ∧ metadataAt? h (c.metaPath k) = none

-- The places of the files of an entry.
def FileOf (c : Cache) (cwd : Location) (k : Key) (l : Location) : Prop :=
  l = c.codePlace cwd k ∨ l = c.metaPlace cwd k

theorem FileOf.owns {cwd l : Location} (hl : c.FileOf cwd k l) : c.Owns cwd l := by
  rcases hl with rfl | rfl
  · exact owns_code k
  · exact owns_meta k

theorem FileOf.key_eq {cwd l : Location} {k' : Key} (hl : c.FileOf cwd k l) (hl' : c.FileOf cwd k' l) :
    k = k' := by
  rcases hl with rfl | rfl <;> rcases hl' with hl' | hl'
  · exact codePlace_inj hl'
  · exact absurd hl' (codePlace_ne_metaPlace k k')
  · exact absurd hl'.symm (codePlace_ne_metaPlace k' k)
  · exact metaPlace_inj hl'

theorem FileOf.not_index {cwd l : Location} (hl : c.FileOf cwd k l) : ¬c.indexHome cwd <+: l := by
  rcases hl with rfl | rfl
  · exact not_indexHome_prefix_code k
  · exact not_indexHome_prefix_meta k

-- The places that are emptied when a cache is cleared.
def Clears (c : Cache) (h : Host) (l : Location) : Prop :=
  (∃ k, k.Plain ∧ c.Readable h k ∧ c.FileOf h.cwd k l) ∨
    h.isDirectory c.indexDir = true ∧ c.indexHome h.cwd <+: l

theorem Clears.owns {l : Location} (hl : c.Clears h l) : c.Owns h.cwd l := by
  rcases hl with ⟨k, -, -, hl⟩ | ⟨-, hl⟩
  · exact hl.owns
  · exact owns_indexHome.mono hl

-- Of the files of an entry, whether they go is up to its own metadata.
theorem clears_file_iff (hk : k.Plain) {l : Location} (hl : c.FileOf h.cwd k l) :
    c.Clears h l ↔ c.Readable h k := by
  constructor
  · rintro (⟨k', -, hread, hl'⟩ | ⟨-, hin⟩)
    · rwa [hl.key_eq hl']
    · exact absurd hin hl.not_index
  · intro hread
    exact .inl ⟨k, hk, hread, hl⟩

theorem readable_iff : c.Readable h k ↔
    ∃ text m, h.read (c.metaPath k) = .ok text ∧ Metadata.ofText? text = some m := by
  unfold Readable metadataAt?
  cases h.read (c.metaPath k) with
  | error fault => simp [Except.toOption]
  | ok text => simp [Except.toOption]

theorem entries_perm {all : List (Key × Metadata)} (hall : c.entries h = .ok all) :
    all.Perm ((h.tree.namesIn (FileTree.place h.cwd c.dir)).filterMap (c.entryAt? h)) := by
  obtain ⟨names, hl, rfl⟩ := entries_eq_ok hall
  rw [(Host.list_eq_ok hl).2]
  exact (List.mergeSort_perm _ _).trans ((List.mergeSort_perm _ _).filterMap _)

-- Entries that are listed are those whose metadata can be read.
theorem mem_entries_keys {all : List (Key × Metadata)} (hv : h.Valid) (hall : c.entries h = .ok all) :
    k ∈ all.map (·.1) ↔ k.Plain ∧ c.Readable h k := by
  constructor
  · intro hmem
    obtain ⟨entry, hentry, rfl⟩ := List.mem_map.mp hmem
    obtain ⟨-, -, -, hmetadata⟩ := (mem_entries hall).mp hentry
    exact ⟨plain_of_mem_entries hv hall hentry, entry.2, hmetadata⟩
  · rintro ⟨hk, m, hmetadata⟩
    obtain ⟨text, -, hread, -⟩ := readable_iff.mp ⟨m, hmetadata⟩
    obtain ⟨changed, he⟩ := Host.read_eq_ok hread
    rw [place_metaPath_eq c h.cwd hk] at he
    obtain ⟨names, hl, -⟩ := entries_eq_ok hall
    have hname : k.digits ++ metaSuffix ∈ names := by
      rw [(Host.list_eq_ok hl).2, List.mem_mergeSort, FileTree.mem_namesIn]
      change (h.tree.entry? (c.metaPlace h.cwd k)).isSome = true
      rw [he]
      rfl
    exact List.mem_map_of_mem ((mem_entries hall).mpr ⟨names, hl, hname, hmetadata⟩)

theorem Ready.isDirectory_indexDir_iff (hr : c.Ready h) :
    h.isDirectory c.indexDir = true ↔ FileTree.unusable? c.indexDir = none ∧
      ∃ changed, h.tree.entry? (c.indexHome h.cwd) = some (.directory changed) := by
  constructor
  · intro hdir
    obtain ⟨hopens, husable⟩ := hr.valid.opens hdir
    have hhome := hopens.directory
    rw [place_indexDir] at hhome
    refine ⟨husable, (FileTree.isDirectoryAt_iff.mp hhome).resolve_left ?_⟩
    exact owns_indexHome.ne_nil
  · rintro ⟨husable, changed, he⟩
    have hindex : IsFileName "index" := by decide
    exact (hr.opens.join hindex (by decide) he).isDirectory husable

theorem Ready.empties_remove (hr : c.Ready h) (hk : k.Plain) (hrun : (c.remove k).run h = (.ok (), h')) :
    c.Ready h' ∧ h.Empties (c.FileOf h.cwd k) h' := by
  have hremoved := hr.removed hk hrun
  refine ⟨hremoved.ready, ⟨hremoved.cwd, fun l hl => ?_⟩, hremoved.clock, fun l hl => ?_⟩
  · exact (hremoved.entries l).trans (if_neg hl)
  · exact (hremoved.entries l).trans (if_pos hl)

theorem Ready.empties_removeAll (hr : c.Ready h) (hkeys : ∀ k ∈ keys, k.Plain)
    (hrun : (Change.makeAll (keys.flatMap c.removing)).run h = (.ok (), h')) :
    c.Ready h' ∧ h.Empties (fun l => ∃ k ∈ keys, c.FileOf h.cwd k l) h' := by
  induction keys generalizing h with
  | nil =>
    obtain rfl := Change.makeAll_nil_ok hrun
    exact ⟨hr, (Host.Empties.refl h').congr fun l => by simp⟩
  | cons k keys ih =>
    obtain ⟨hplain, hkeys⟩ := List.forall_mem_cons.mp hkeys
    obtain ⟨t, hfirst, hrun⟩ := Change.makeAll_append_ok hrun
    obtain ⟨hready, hempties⟩ := hr.empties_remove hplain hfirst
    obtain ⟨hready', hempties'⟩ := ih hready hkeys hrun
    rw [hempties.cwd] at hempties'
    exact ⟨hready', (hempties.trans hempties').congr fun l => by simp⟩

theorem index?_of_unread {source : Path} (hunread : ∀ text, h.read (c.indexPath source) ≠ .ok text) :
    c.index? h source = none := by
  cases hi : c.index? h source with
  | none => rfl
  | some i =>
    obtain ⟨text, hread, -⟩ := index?_eq_some hi
    exact absurd hread (hunread text)

-- The directory of indexes goes with all that is in it. If it cannot be found, no index can.
theorem Ready.empties_indexDir (hr : c.Ready h)
    (hrun : (Change.removeTree c.indexDir).make.run h = (.ok (), h')) :
    h.Empties (fun l => h.isDirectory c.indexDir = true ∧ c.indexHome h.cwd <+: l) h' ∧
      ∀ source, c.index? h' source = none := by
  rw [Change.make_removeTree_run] at hrun
  split at hrun
  · next hdir =>
    split at hrun
    · cases hrun
    next l hl =>
    obtain rfl : l = c.indexHome h.cwd := (FileTree.resolve_eq_ok hl).2.trans (place_indexDir c h.cwd)
    split at hrun
    · obtain ⟨-, rfl⟩ := Prod.mk.inj hrun
      refine ⟨⟨⟨rfl, fun l hl => ?_⟩, rfl, fun l hl => ?_⟩,
        fun source => index?_of_unread fun text hread => ?_⟩
      · exact (FileTree.entry?_erase ..).trans (if_neg fun hin => hl ⟨hdir, hin⟩)
      · exact (FileTree.entry?_erase ..).trans (if_pos hl.2)
      · obtain ⟨changed, he⟩ := Host.read_eq_ok hread
        rw [place_indexPath_eq] at he
        have hgone := (FileTree.entry?_erase h.tree (c.indexHome h.cwd) (c.indexPlace h.cwd source)).trans
          (if_pos (indexHome_prefix_index source))
        cases hgone.symm.trans he
    · cases hrun
  · next habsent =>
    obtain ⟨-, rfl⟩ := Prod.mk.inj hrun
    refine ⟨(Host.Empties.refl _).congr fun l => ?_, fun source => index?_of_unread fun text hread => ?_⟩
    · simp [habsent]
    · obtain ⟨husable, -, changed, he⟩ := hr.read_index_iff.mp hread
      exact habsent ((hr.opens_indexDir he).isDirectory (unusable?_indexDir husable))

-- What clearing does to the files of a cache.
theorem Ready.empties_clear (hr : c.Ready h) {count : Nat} (hrun : c.clear.run h = (.ok count, h')) :
    h.Empties (c.Clears h) h' ∧ ∀ source, c.index? h' source = none := by
  obtain ⟨all, hall, hrun⟩ := clear_eq_ok hrun
  obtain ⟨t, hkeys, hrun⟩ := Change.makeAll_append_ok hrun
  obtain ⟨u, hindex, hlast⟩ := Change.makeAll_cons_ok hrun
  obtain rfl := Change.makeAll_nil_ok hlast
  have hlisted := fun k => mem_entries_keys (k := k) hr.valid hall
  obtain ⟨hready, hfiles⟩ := hr.empties_removeAll (fun k hk => ((hlisted k).mp hk).1) hkeys
  obtain ⟨htree, hnone⟩ := hready.empties_indexDir hindex
  -- No entry has the directory of indexes for a file of its own.
  have hhome : t.tree.entry? (c.indexHome h.cwd) = h.tree.entry? (c.indexHome h.cwd) := by
    refine hfiles.entries _ ?_
    rintro ⟨k, -, hl⟩
    exact hl.not_index (List.prefix_refl _)
  have hdir : t.isDirectory c.indexDir = true ↔ h.isDirectory c.indexDir = true := by
    rw [hready.isDirectory_indexDir_iff, hr.isDirectory_indexDir_iff, hfiles.cwd, hhome]
  refine ⟨(hfiles.trans htree).congr fun l => or_congr ?_ (and_congr hdir ?_), hnone⟩
  · simp only [hlisted, and_assoc]
  · rw [hfiles.cwd]

-- What is found of a cache that was cleared. Nothing is left under the keys whose metadata could be
-- read. Other files of entries are as they were, and damaged metadata makes its entry stale as before.
structure Cleared (c : Cache) (h h' : Host) : Prop where
  empties : h.Empties (c.Clears h) h'
  gone : ∀ k, k.Plain → c.Readable h k → ∀ l, c.FileOf h.cwd k l → h'.tree.entry? l = none
  left : ∀ k, k.Plain → ¬c.Readable h k → ∀ l, c.FileOf h.cwd k l → h'.tree.entry? l = h.tree.entry? l
  index? : ∀ source, c.index? h' source = none
  missing : ∀ k, k.Plain → ¬c.Damaged h k → c.lookup h' k = .missing
  stale : c.Apart h.cwd → ∀ k, k.Plain → c.Damaged h k → c.lookup h' k = .stale

theorem lookup_of_damaged (hd : c.Damaged h k) : c.lookup h k = .stale := by
  unfold lookup
  rw [if_pos hd.1, hd.2]

-- The metadata of an entry is found only where it stands, whatever the way there.
theorem fits_of_present (hk : k.Plain) (hp : h.present (c.metaPath k) = true) :
    c.Fits (k.digits ++ metaSuffix) ∧ (h.tree.entry? (c.metaPlace h.cwd k)).isSome = true := by
  unfold Host.present at hp
  cases hr : h.resolve (c.metaPath k) with
  | error fault =>
    rw [hr] at hp
    cases hp
  | ok l =>
    obtain ⟨hu, hlong, hsome⟩ := Host.resolve_join_eq_ok hk.isFileName_meta hr
    obtain rfl := (FileTree.resolve_eq_ok hr).2
    rw [place_metaPath_eq c h.cwd hk] at hsome
    exact ⟨⟨hu, hlong⟩, hsome⟩

-- Where metadata stands after as before, it is damaged after as before.
theorem Damaged.of_entry? (hd : c.Damaged h k) (hk : k.Plain) (hr : c.Ready h) (hr' : c.Ready h')
    (hcwd : h'.cwd = h.cwd)
    (hsame : h'.tree.entry? (c.metaPlace h.cwd k) = h.tree.entry? (c.metaPlace h.cwd k)) :
    c.Damaged h' k := by
  have hroot : c.root h'.cwd = c.root h.cwd := by rw [hcwd]
  constructor
  · rw [metaPath, hr'.present_child_iff hk.isFileName_meta, hroot]
    have hp := (hr.present_child_iff hk.isFileName_meta).mp hd.1
    exact ⟨hp.1, (congrArg Option.isSome hsame).trans hp.2⟩
  · cases hm : metadataAt? h' (c.metaPath k) with
    | none => rfl
    | some m =>
      obtain ⟨text, m, hread, htext⟩ := readable_iff.mp ⟨m, hm⟩
      obtain ⟨hfits, changed, he⟩ := (hr'.read_child_iff hk.isFileName_meta).mp hread
      rw [hroot] at he
      have hread' : h.read (c.metaPath k) = .ok text :=
        (hr.read_child_iff hk.isFileName_meta).mpr ⟨hfits, changed, hsame.symm.trans he⟩
      obtain ⟨m', hm'⟩ := readable_iff.mpr ⟨text, m, hread', htext⟩
      rw [hd.2] at hm'
      cases hm'

-- A cache is cleared. All goes that can be found under a key whose metadata can be read, and so do all
-- indexes. It is not all: code whose metadata is gone and metadata that is damaged, with its code, stay,
-- and the keys of the latter are looked up as stale.
theorem clear_keeps_unlisted (c : Cache) (h h' : Host) (count : Nat) (hv : h.Valid) (ho : c.Open h)
    (hrun : c.clear.run h = (.ok count, h')) : c.Cleared h h' := by
  have hr : c.Ready h := ho.ready hv
  have hv' : h'.Valid := by
    have hvalid := (clear_adds c h).valid hv
    rwa [hrun] at hvalid
  obtain ⟨hempties, hindex⟩ := hr.empties_clear hrun
  have hfile := fun k hk l hl => clears_file_iff (c := c) (h := h) (k := k) (l := l) hk hl
  refine ⟨hempties, fun k hk hread l hl => ?_, fun k hk hread l hl => ?_, hindex, fun k hk hd => ?_,
    fun hapart k hk hd => ?_⟩
  · exact hempties.gone l ((hfile k hk l hl).mpr hread)
  · exact hempties.entries l (mt (hfile k hk l hl).mp hread)
  · have habsent : ¬h'.present (c.metaPath k) = true := by
      intro hp
      obtain ⟨hfits, hsome⟩ := fits_of_present hk hp
      rw [hempties.cwd] at hsome
      obtain ⟨hout, hsome⟩ := hempties.isSome_of hsome
      have hp : h.present (c.metaPath k) = true :=
        (hr.present_child_iff hk.isFileName_meta).mpr ⟨hfits, hsome⟩
      cases hm : metadataAt? h (c.metaPath k) with
      | none => exact hd ⟨hp, hm⟩
      | some m => exact hout ((hfile k hk _ (.inr rfl)).mpr ⟨m, hm⟩)
    unfold lookup
    rw [if_neg habsent]
  · have hunread : ¬c.Readable h k := by
      rintro ⟨m, hm⟩
      rw [hd.2] at hm
      cases hm
    have hsame : h.SameBut (c.Owns h.cwd) h' := hempties.toSameBut.mono fun l hl => hl.owns
    have hr' := hr.of_sameBut hapart hsame hv'
    have hleft := hempties.entries _ (mt (hfile k hk _ (.inr rfl)).mp hunread)
    exact lookup_of_damaged (hd.of_entry? hk hr hr' hempties.cwd hleft)

-- A directory with an entry and its index, an entry whose metadata is damaged, and code of a third.
def littered : Host where
  tree := ⟨[(["c"], .directory ⟨0, 0⟩),
    (["c", "ab.code.json"], .file "ab".toUTF8 ⟨4, 0⟩),
    (["c", "ab.meta.json"], .file (Metadata.text ⟨⟨"/p"⟩, [], ⟨4, 0⟩⟩).toUTF8 ⟨4, 0⟩),
    (["c", "cd.code.json"], .file "cd".toUTF8 ⟨4, 0⟩),
    (["c", "cd.meta.json"], .file "?".toUTF8 ⟨4, 0⟩),
    (["c", "ef.code.json"], .file "ef".toUTF8 ⟨4, 0⟩),
    (["c", "index"], .directory ⟨4, 0⟩),
    (["c", "index", indexName ⟨"/p"⟩], .file (Index.text ⟨⟨"/p"⟩, [], []⟩).toUTF8 ⟨4, 0⟩)]⟩
  cwd := []
  clock := ⟨5, 0⟩
  cacheHome := none

def litteredCache : Cache := ⟨⟨"c"⟩⟩

-- Only the first entry is listed, and it goes with the index.
theorem clear_keeps_unlisted_littered : ∃ h', litteredCache.clear.run littered = (.ok 1, h') ∧
    litteredCache.lookup h' ⟨"ab"⟩ = .missing ∧ litteredCache.lookup h' ⟨"cd"⟩ = .stale ∧
    h'.tree.entry? (litteredCache.codePlace [] ⟨"ef"⟩) = some (.file "ef".toUTF8 ⟨4, 0⟩) ∧
    litteredCache.index? h' ⟨"/p"⟩ = none := by
  have hv : littered.Valid := ⟨.of_entries (by decide +kernel), by decide⟩
  have ho : litteredCache.Open littered := by decide +kernel
  have hmetadata : (metadataAt? littered (litteredCache.metaPath ⟨"ab"⟩)).isSome = true ∧
      metadataAt? littered (litteredCache.metaPath ⟨"cd"⟩) = none ∧
      metadataAt? littered (litteredCache.metaPath ⟨"ef"⟩) = none := by decide +kernel
  obtain ⟨all, hall⟩ := (ho.ready hv).entries_ok (by decide)
  have hkeys : all.map (·.1) = [⟨"ab"⟩] := by
    have hfound : ((littered.tree.namesIn (FileTree.place littered.cwd litteredCache.dir)).filterMap
        (litteredCache.entryAt? littered)).map (·.1) = [⟨"ab"⟩] := by decide +kernel
    exact List.perm_singleton.mp (hfound ▸ (entries_perm hall).map (·.1))
  have hcount : all.length = 1 := by rw [← List.length_map (f := (·.1)), hkeys]; rfl
  have hdone : ((Change.makeAll (litteredCache.clearing [⟨"ab"⟩])).run littered).1.toBool = true := by
    decide +kernel
  have hrun := clear_run litteredCache littered
  rw [hall] at hrun
  dsimp only at hrun
  rw [hkeys, hcount] at hrun
  cases hchanges : (Change.makeAll (litteredCache.clearing [⟨"ab"⟩])).run littered with
  | mk result h' =>
    rw [hchanges] at hdone hrun
    cases result with
    | error failure => cases hdone
    | ok _ =>
      have hcleared := clear_keeps_unlisted litteredCache littered h' 1 hv ho hrun
      refine ⟨h', hrun, ?_, ?_, ?_, hcleared.index? _⟩
      · refine hcleared.missing _ ⟨by decide, by decide⟩ fun hd => ?_
        rw [hd.2] at hmetadata
        cases hmetadata.1
      · exact hcleared.stale (by unfold Apart; decide +kernel) _ ⟨by decide, by decide⟩
          ⟨by decide +kernel, hmetadata.2.1⟩
      · refine (hcleared.left ⟨"ef"⟩ ⟨by decide, by decide⟩ ?_ _ (.inl rfl)).trans rfl
        rintro ⟨m, hm⟩
        rw [hmetadata.2.2] at hm
        cases hm

end Cache
end TemplateEngine
