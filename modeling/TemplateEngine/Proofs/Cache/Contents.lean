import Mathlib.Data.List.Permutation
import Mathlib.Logic.Function.Basic
import TemplateEngine.Proofs.Cache.Entries
import TemplateEngine.Proofs.Cache.Reading

-- What a cache holds, as a map of its own: an entry for each key and an index for each source. The
-- files of a cache stand for such a map, and each operation does to the files what it does to the map.
namespace TemplateEngine.Cache

variable {c : Cache} {h h' start : Host} {k : Key} {i : Index} {ops : List Op}

inductive Op where
  | store (key : Key) (code : String) (metadata : Metadata) (resolutions : List Compile.Resolution)
  | writeIndex (index : Index)
  | remove (key : Key)
  | clear

namespace Op

def action (c : Cache) : Op → Action Failure Unit
  | store key code metadata resolutions => c.store key code metadata resolutions
  | writeIndex i => c.writeIndex i
  | remove key => c.remove key
  | clear => do
    let _ ← c.clear

-- The index that an operation writes.
def index? : Op → Option Index
  | store _ _ metadata resolutions => some ⟨metadata.source, metadata.dependencies, resolutions⟩
  | writeIndex i => some i
  | remove _ | clear => none

-- Keys can stand in names of files, and the years of times have four digits.
def Fit : Op → Prop
  | store key _ metadata _ => key.Plain ∧ metadata.compiledAt.Dated
  | remove key => key.Plain
  | writeIndex _ | clear => True

instance (op : Op) : Decidable op.Fit :=
  match op with
  | store key _ metadata _ => inferInstanceAs (Decidable (key.Plain ∧ metadata.compiledAt.Dated))
  | remove key => inferInstanceAs (Decidable key.Plain)
  | writeIndex _ | clear => inferInstanceAs (Decidable True)

end Op

structure Contents where
  entry? : Key → Option (String × Metadata)
  index? : Path → Option Index

namespace Contents

def empty : Contents := ⟨fun _ => none, fun _ => none⟩

def withEntry (d : Contents) (k : Key) (entry : Option (String × Metadata)) : Contents :=
  { d with entry? := Function.update d.entry? k entry }

def withIndex (d : Contents) (i : Index) : Contents :=
  { d with index? := Function.update d.index? i.source (some i) }

def after (d : Contents) : Op → Contents
  | .store k code m resolutions =>
    (d.withEntry k (some (code, m))).withIndex ⟨m.source, m.dependencies, resolutions⟩
  | .writeIndex i => d.withIndex i
  | .remove k => d.withEntry k none
  | .clear => empty

def ofOps (ops : List Op) : Contents := ops.foldl after empty

end Contents

-- What happens around a cache: its own files stay as they are, and its directory where it is.
structure Elsewhere (c : Cache) (h h' : Host) : Prop where
  same : h.SameBut (fun l => ¬c.Owns h.cwd l) h'
  valid : h'.Valid
  single : h'.tree.Single
  opens : h'.isDirectory c.dir = true

-- Operations that succeed, one after the other, with anything else happening in between.
inductive Reached (c : Cache) (start : Host) : List Op → Host → Prop where
  | start : Reached c start [] start
  | op {ops : List Op} {h h' : Host} {op : Op} (hr : Reached c start ops h) (hfit : op.Fit)
      (hrun : (op.action c).run h = (.ok (), h')) : Reached c start (ops ++ [op]) h'
  | elsewhere {ops : List Op} {h h' : Host} (hr : Reached c start ops h) (he : c.Elsewhere h h') :
      Reached c start ops h'

-- Operations that are run and all succeed are such.
def runAll (c : Cache) (h : Host) : List Op → Option Host
  | [] => some h
  | op :: ops =>
    match (op.action c).run h with
    | (.ok _, h') => c.runAll h' ops
    | (.error _, _) => none

theorem Reached.runAll {more : List Op} (hr : c.Reached start ops h) (hfit : ∀ op ∈ more, op.Fit)
    (hrun : c.runAll h more = some h') : c.Reached start (ops ++ more) h' := by
  induction more generalizing ops h with
  | nil =>
    obtain rfl := Option.some.inj hrun
    rwa [List.append_nil]
  | cons op more ih =>
    obtain ⟨hop, hmore⟩ := List.forall_mem_cons.mp hfit
    unfold Cache.runAll at hrun
    split at hrun
    · next t hop' =>
      rw [List.append_cons]
      exact ih (.op hr hop hop') hmore hrun
    · cases hrun

def EntryAt (c : Cache) (h : Host) (k : Key) : Option (String × Metadata) → Prop
  | none => h.tree.entry? (c.codePlace h.cwd k) = none ∧ h.tree.entry? (c.metaPlace h.cwd k) = none
  | some (code, m) => c.Filed k code m h

def IndexAt (c : Cache) (h : Host) (source : Path) : Option Index → Prop
  | none => h.tree.entry? (c.indexPlace h.cwd source) = none
  | some i => i.source = source ∧ c.Indexed i h

-- Whether none of some sources has its index in the place of another one's.
def Alone (sources : List Path) (source : Path) : Prop :=
  ∀ other ∈ sources, digest other.text = digest source.text → other = source

theorem Alone.mono {sources others : List Path} {source : Path} (ha : Alone (sources ++ others) source) :
    Alone sources source := fun other hother => ha other (List.mem_append_left _ hother)

-- The files of a cache stand for what is in it. An index is where it belongs unless another source
-- has written its own there.
structure Kept (c : Cache) (d : Contents) (sources : List Path) (h : Host) : Prop where
  ready : c.Ready h
  apart : c.Apart h.cwd
  single : h.tree.Single
  entry : ∀ k, c.EntryAt h k (d.entry? k)
  index : ∀ source, Alone sources source → c.IndexAt h source (d.index? source)

variable {d : Contents} {sources : List Path} {source : Path}

theorem EntryAt.congr {entry : Option (String × Metadata)} (he : c.EntryAt h k entry) (hcwd : h'.cwd = h.cwd)
    (hcode : h'.tree.entry? (c.codePlace h.cwd k) = h.tree.entry? (c.codePlace h.cwd k))
    (hmeta : h'.tree.entry? (c.metaPlace h.cwd k) = h.tree.entry? (c.metaPlace h.cwd k)) :
    c.EntryAt h' k entry := by
  cases entry with
  | none =>
    unfold EntryAt
    rw [hcwd, hcode, hmeta]
    exact he
  | some entry =>
    obtain ⟨hplain, hdated, hfitsCode, hfitsMeta, hc, hm⟩ := he
    refine ⟨hplain, hdated, hfitsCode, hfitsMeta, ?_, ?_⟩
    · rwa [hcwd, hcode]
    · rwa [hcwd, hmeta]

theorem IndexAt.congr {index : Option Index} (hi : c.IndexAt h source index) (hcwd : h'.cwd = h.cwd)
    (hsame : h'.tree.entry? (c.indexPlace h.cwd source) = h.tree.entry? (c.indexPlace h.cwd source)) :
    c.IndexAt h' source index := by
  cases index with
  | none =>
    unfold IndexAt
    rw [hcwd, hsame]
    exact hi
  | some i =>
    obtain ⟨rfl, husable, hsize, hfile⟩ := hi
    exact ⟨rfl, husable, hsize, by rwa [hcwd, hsame]⟩

theorem digest_of_indexPlace {cwd : Location} {other : Path}
    (h : c.indexPlace cwd source = c.indexPlace cwd other) : digest source.text = digest other.text :=
  stem_eq (List.singleton_inj.mp (List.append_cancel_left h))

theorem kept_start (hv : h.Valid) (hs : h.tree.Single) (ho : h.isDirectory c.dir = true)
    (hvacant : c.Vacant h) : c.Kept .empty [] h := by
  obtain ⟨hopens, husable⟩ := hv.opens ho
  have hready : c.Ready h := ⟨hv, hopens, .inr husable⟩
  exact ⟨hready, hready.apart hvacant, hs, fun k => ⟨hvacant _ (owns_code k), hvacant _ (owns_meta k)⟩,
    fun source _ => hvacant _ (owns_index source)⟩

-- Only the places of a cache itself have to be looked at.
theorem Kept.elsewhere (hk : c.Kept d sources h) (he : c.Elsewhere h h') : c.Kept d sources h' := by
  obtain ⟨hopens, husable⟩ := he.valid.opens he.opens
  have hown : ∀ l, c.Owns h.cwd l → h'.tree.entry? l = h.tree.entry? l :=
    fun l hl => he.same.entries l (not_not.mpr hl)
  refine ⟨⟨he.valid, hopens, .inr husable⟩, he.same.cwd ▸ hk.apart, he.single, fun k => ?_, fun source ha => ?_⟩
  · exact (hk.entry k).congr he.same.cwd (hown _ (owns_code k)) (hown _ (owns_meta k))
  · exact (hk.index source ha).congr he.same.cwd (hown _ (owns_index source))

-- An index that is written takes the place of the one before, and of no other.
theorem Kept.index_written (hk : c.Kept d sources h) (hcwd : h'.cwd = h.cwd) (hi : c.Indexed i h')
    (hothers : ∀ source, c.indexPlace h.cwd source ≠ c.indexPlace h.cwd i.source →
      h'.tree.entry? (c.indexPlace h.cwd source) = h.tree.entry? (c.indexPlace h.cwd source))
    (source : Path) (ha : Alone (sources ++ [i.source]) source) :
    c.IndexAt h' source ((d.withIndex i).index? source) := by
  change c.IndexAt h' source (Function.update d.index? i.source (some i) source)
  by_cases hsource : source = i.source
  · rw [hsource, Function.update_self]
    exact ⟨rfl, hi⟩
  · rw [Function.update_of_ne hsource]
    refine (hk.index source ha.mono).congr hcwd (hothers source fun hplace => hsource ?_)
    exact (ha i.source (by simp) (digest_of_indexPlace hplace).symm).symm

theorem Kept.store (hk : c.Kept d sources h) {code : String} {m : Metadata}
    {resolutions : List Compile.Resolution} (hplain : k.Plain) (hdated : m.compiledAt.Dated)
    (hrun : (c.store k code m resolutions).run h = (.ok (), h')) :
    c.Kept (d.after (.store k code m resolutions)) (sources ++ [m.source]) h' := by
  have hs := hk.ready.stored hplain hrun
  refine ⟨hs.ready, hs.cwd ▸ hk.apart, hs.single hk.single, fun k' => ?_, ?_⟩
  · change c.EntryAt h' k' (Function.update d.entry? k (some (code, m)) k')
    by_cases hkey : k' = k
    · rw [hkey, Function.update_self]
      exact hs.filed hplain hdated
    · rw [Function.update_of_ne hkey]
      refine (hk.entry k').congr hs.cwd (hs.others _ (fun h => hkey (codePlace_inj h)) ?_ ?_ ?_)
        (hs.others _ ?_ (fun h => hkey (metaPlace_inj h)) ?_ ?_)
      · exact codePlace_ne_metaPlace k' k
      · exact codePlace_ne_indexPlace k' _
      · exact codePlace_ne_indexHome k'
      · exact (codePlace_ne_metaPlace k k').symm
      · exact metaPlace_ne_indexPlace k' _
      · exact metaPlace_ne_indexHome k'
  · refine hk.index_written hs.cwd hs.indexed fun source hne => ?_
    exact hs.others _ (codePlace_ne_indexPlace k source).symm (metaPlace_ne_indexPlace k source).symm hne
      (indexPlace_ne_indexHome source)

theorem Kept.writeIndex (hk : c.Kept d sources h) (hrun : (c.writeIndex i).run h = (.ok (), h')) :
    c.Kept (d.after (.writeIndex i)) (sources ++ [i.source]) h' := by
  obtain ⟨husable, hsize, hw⟩ := hk.ready.wrote_index hrun
  refine ⟨hw.ready, hw.cwd ▸ hk.apart, hw.single hk.single, fun k' => ?_, ?_⟩
  · exact (hk.entry k').congr hw.cwd (hw.others _ (codePlace_ne_indexPlace k' _) (codePlace_ne_indexHome k'))
      (hw.others _ (metaPlace_ne_indexPlace k' _) (metaPlace_ne_indexHome k'))
  · refine hk.index_written hw.cwd ⟨husable, hsize, ⟨_, hw.cwd ▸ hw.file⟩⟩ fun source hne => ?_
    exact hw.others _ hne (indexPlace_ne_indexHome source)

theorem Kept.remove (hk : c.Kept d sources h) (hplain : k.Plain)
    (hrun : (c.remove k).run h = (.ok (), h')) : c.Kept (d.after (.remove k)) sources h' := by
  have hr := hk.ready.removed hplain hrun
  refine ⟨hr.ready, hr.cwd ▸ hk.apart, hr.single hk.single, fun k' => ?_, fun source ha => ?_⟩
  · change c.EntryAt h' k' (Function.update d.entry? k none k')
    by_cases hkey : k' = k
    · rw [hkey, Function.update_self]
      unfold EntryAt
      rw [hr.cwd, hr.entries, hr.entries]
      simp
    · rw [Function.update_of_ne hkey]
      refine (hk.entry k').congr hr.cwd ?_ ?_
      · rw [hr.entries, if_neg]
        exact not_or.mpr ⟨fun h => hkey (codePlace_inj h), codePlace_ne_metaPlace k' k⟩
      · rw [hr.entries, if_neg]
        exact not_or.mpr ⟨(codePlace_ne_metaPlace k k').symm, fun h => hkey (metaPlace_inj h)⟩
  · refine (hk.index source ha).congr hr.cwd ?_
    rw [hr.entries, if_neg]
    exact not_or.mpr ⟨(codePlace_ne_indexPlace k source).symm, (metaPlace_ne_indexPlace k source).symm⟩

def Contents.without (d : Contents) (keys : List Key) : Contents :=
  { d with entry? := fun k => if k ∈ keys then none else d.entry? k }

theorem Contents.without_cons (d : Contents) (k : Key) (keys : List Key) :
    d.without (k :: keys) = (d.withEntry k none).without keys := by
  unfold without withEntry
  congr 1
  funext k'
  by_cases hkey : k' = k
  · simp [hkey]
  · simp [hkey]

theorem Kept.removeAll {keys : List Key} (hk : c.Kept d sources h) (hkeys : ∀ k ∈ keys, k.Plain)
    (hrun : (Change.makeAll (keys.flatMap c.removing)).run h = (.ok (), h')) :
    c.Kept (d.without keys) sources h' := by
  induction keys generalizing d h with
  | nil =>
    obtain rfl := Change.makeAll_nil_ok hrun
    exact hk
  | cons k keys ih =>
    obtain ⟨hplain, hkeys⟩ := List.forall_mem_cons.mp hkeys
    obtain ⟨t, hfirst, hrun⟩ := Change.makeAll_append_ok hrun
    rw [Contents.without_cons]
    exact ih (hk.remove hplain hfirst) hkeys hrun

section Reading

variable {code : String} {m : Metadata}

theorem Kept.lookup (hk : c.Kept d sources h) (hplain : k.Plain) :
    c.lookup h k = match d.entry? k with
      | none => .missing
      | some (code, m) => if m.isFresh h then .fresh code m else .stale := by
  have hentry := hk.entry k
  cases he : d.entry? k with
  | none =>
    rw [he] at hentry
    exact lookup_missing hk.ready.valid hplain hentry.2
  | some entry =>
    rw [he] at hentry
    exact hentry.lookup hk.ready

theorem Kept.index? (hk : c.Kept d sources h) (ha : Alone sources source) :
    c.index? h source = (d.index? source).filter fun i => i.dependencies.all h.present := by
  have hindex := hk.index source ha
  cases hi : d.index? source with
  | none =>
    rw [hi] at hindex
    unfold Cache.index?
    have hread : (h.read (c.indexPath source)).toOption = none := by
      cases hread : h.read (c.indexPath source) with
      | error fault => rfl
      | ok text =>
        obtain ⟨-, -, changed, he⟩ := hk.ready.read_index_iff.mp hread
        rw [hindex] at he
        cases he
    rw [hread]
    rfl
  | some i =>
    rw [hi] at hindex
    obtain ⟨rfl, hindexed⟩ := hindex
    exact hindexed.index?_eq hk.ready

theorem Kept.mem_entries_iff (hk : c.Kept d sources h) {all : List (Key × Metadata)}
    (hall : c.entries h = .ok all) : (k, m) ∈ all ↔ ∃ code, d.entry? k = some (code, m) := by
  obtain ⟨names, hl, -⟩ := entries_eq_ok hall
  have hnames : k.digits ++ metaSuffix ∈ names ↔
      (h.tree.entry? (c.metaPlace h.cwd k)).isSome = true := by
    rw [(Host.list_eq_ok hl).2, List.mem_mergeSort]
    exact FileTree.mem_namesIn
  have hentry := hk.entry k
  rw [mem_entries hall, hl]
  constructor
  · rintro ⟨_, hsame, hname, hmetadata⟩
    cases hsame
    rw [hnames] at hname
    cases he : d.entry? k with
    | none =>
      rw [he] at hentry
      rw [hentry.2] at hname
      cases hname
    | some entry =>
      rw [he] at hentry
      rw [hentry.metadataAt?_eq hk.ready] at hmetadata
      cases hmetadata
      exact ⟨entry.1, rfl⟩
  · rintro ⟨code, he⟩
    rw [he] at hentry
    exact ⟨names, rfl, hnames.mpr hentry.isSome_metaPlace, hentry.metadataAt?_eq hk.ready⟩

theorem Ready.entries_ok (hr : c.Ready h) (hu : FileTree.unusable? c.dir = none) :
    ∃ all, c.entries h = .ok all := by
  have hlist : h.list c.dir = .ok ((h.tree.namesIn (c.root h.cwd)).mergeSort fun a b => !(b < a)) := by
    unfold Host.list
    rw [hr.opens.resolve hu]
    change (if h.tree.isDirectoryAt (c.root h.cwd) = true then _ else _) = _
    rw [if_pos hr.opens.directory]
    rfl
  unfold entries
  rw [hlist]
  exact ⟨_, rfl⟩

end Reading

-- The directory of indexes is removed with all that is in it. If it cannot be found, none is there.
theorem Kept.removeIndexDir (hk : c.Kept d sources h) (hnone : ∀ k, d.entry? k = none)
    (hrun : (Change.removeTree c.indexDir).make.run h = (.ok (), h')) : c.Kept .empty sources h' := by
  have hentry : ∀ k, c.EntryAt h k none := fun k => hnone k ▸ hk.entry k
  rw [Change.make_removeTree_run] at hrun
  split at hrun
  · split at hrun
    · cases hrun
    next l hr =>
    obtain rfl : l = c.indexHome h.cwd := (FileTree.resolve_eq_ok hr).2.trans (place_indexDir c h.cwd)
    split at hrun
    · obtain ⟨-, rfl⟩ := Prod.mk.inj hrun
      have hkeeps : ∀ l, ¬c.indexHome h.cwd <+: l →
          FileTree.entry? (h.tree.erase (c.indexHome h.cwd)) l = h.tree.entry? l := by
        intro l hl
        rw [FileTree.entry?_erase, if_neg hl]
      have hsame : h.SameBut (c.Owns h.cwd) { h with tree := h.tree.erase (c.indexHome h.cwd) } :=
        ⟨rfl, fun l hl => hkeeps l fun hin => hl (owns_indexHome.mono hin)⟩
      have hready := hk.ready.of_sameBut hk.apart hsame ⟨hk.ready.valid.tree.erase _, hk.ready.valid.cwd⟩
      refine ⟨hready, hk.apart, hk.single.erase _, fun k => ?_, fun source _ => ?_⟩
      · exact (hentry k).congr rfl (hkeeps _ (not_indexHome_prefix_code k)) (hkeeps _ (not_indexHome_prefix_meta k))
      · change FileTree.entry? (h.tree.erase (c.indexHome h.cwd)) (c.indexPlace h.cwd source) = none
        rw [FileTree.entry?_erase, if_pos (indexHome_prefix_index source)]
    · cases hrun
  · next habsent =>
    obtain ⟨-, rfl⟩ := Prod.mk.inj hrun
    refine ⟨hk.ready, hk.apart, hk.single, hentry, fun source ha => ?_⟩
    have hindex := hk.index source ha
    cases hi : d.index? source with
    | none =>
      rw [hi] at hindex
      exact hindex
    | some i =>
      rw [hi] at hindex
      obtain ⟨rfl, husable, -, changed, he⟩ := hindex
      exact absurd ((hk.ready.opens_indexDir he).isDirectory (unusable?_indexDir husable)) habsent

-- Clearing removes each entry that is listed, and all of them are.
theorem Kept.clear (hk : c.Kept d sources h) {count : Nat} (hrun : c.clear.run h = (.ok count, h')) :
    c.Kept .empty sources h' := by
  obtain ⟨all, hall, hrun⟩ := clear_eq_ok hrun
  have hplain : ∀ k ∈ all.map (·.1), k.Plain := by
    intro k hmem
    obtain ⟨entry, hentry, rfl⟩ := List.mem_map.mp hmem
    exact plain_of_mem_entries hk.ready.valid hall hentry
  obtain ⟨t, hkeys, hrun⟩ := Change.makeAll_append_ok hrun
  obtain ⟨u, hrun, hlast⟩ := Change.makeAll_cons_ok hrun
  obtain rfl := Change.makeAll_nil_ok hlast
  refine (hk.removeAll hplain hkeys).removeIndexDir (fun k => ?_) hrun
  unfold Contents.without
  dsimp only
  split
  · rfl
  · next hkey =>
    cases he : d.entry? k with
    | none => rfl
    | some entry =>
      exact absurd (List.mem_map_of_mem ((hk.mem_entries_iff hall).mpr ⟨entry.1, he⟩)) hkey

-- The sources whose indexes operations write.
def sourcesOf (ops : List Op) : List Path := (ops.filterMap Op.index?).map Index.source

theorem Kept.op {op : Op} (hk : c.Kept d sources h) (hfit : op.Fit)
    (hrun : (op.action c).run h = (.ok (), h')) : c.Kept (d.after op) (sources ++ sourcesOf [op]) h' := by
  cases op with
  | store k code m resolutions => exact hk.store hfit.1 hfit.2 hrun
  | writeIndex i => exact hk.writeIndex hrun
  | remove k =>
    change c.Kept (d.after (.remove k)) (sources ++ []) h'
    rw [List.append_nil]
    exact hk.remove hfit hrun
  | clear =>
    have hclear : ∃ count, c.clear.run h = (.ok count, h') := by
      unfold Op.action at hrun
      rw [run_bind] at hrun
      cases hresult : c.clear.run h with
      | mk result t =>
        rw [hresult] at hrun
        cases result with
        | error failure => cases hrun
        | ok count => exact ⟨count, congrArg _ (Prod.mk.inj hrun).2⟩
    obtain ⟨count, hclear⟩ := hclear
    change c.Kept .empty (sources ++ []) h'
    rw [List.append_nil]
    exact hk.clear hclear

theorem Reached.kept (hstart : c.Kept .empty [] start) (hr : c.Reached start ops h) :
    c.Kept (Contents.ofOps ops) (sourcesOf ops) h := by
  induction hr with
  | start => exact hstart
  | @op ops h h' op hr hfit hrun ih =>
    have hk := ih.op hfit hrun
    unfold Contents.ofOps sourcesOf at *
    rw [List.foldl_append, List.filterMap_append, List.map_append]
    exact hk
  | elsewhere hr he ih => exact ih.elsewhere he

-- What a cache shows of what is in it. An index is shown while the dependencies in it are there.
structure Shows (c : Cache) (d : Contents) (sources : List Path) (h : Host) : Prop where
  lookup : ∀ k, k.Plain → c.lookup h k = match d.entry? k with
    | none => .missing
    | some (code, m) => if m.isFresh h then .fresh code m else .stale
  index? : ∀ source, Alone sources source →
    c.index? h source = (d.index? source).filter fun i => i.dependencies.all h.present
  entries : ∃ all, c.entries h = .ok all ∧ (all.map (·.1)).Nodup ∧
    (∀ k m, (k, m) ∈ all ↔ ∃ code, d.entry? k = some (code, m)) ∧
    all.Pairwise fun a b => a.2.source.before b.2.source = true ∨
      a.2.source.same b.2.source = true ∧ a.1.digits < b.1.digits

theorem pairwise_sources {all : List (Key × Metadata)} (hnodup : (all.map (·.1)).Nodup)
    (hsorted : all.Pairwise fun a b => weight a ≤ weight b) :
    all.Pairwise fun a b => a.2.source.before b.2.source = true ∨
      a.2.source.same b.2.source = true ∧ a.1.digits < b.1.digits := by
  refine (hsorted.and (List.pairwise_map.mp hnodup)).imp ?_
  rintro ⟨⟨digits⟩, m⟩ ⟨⟨digits'⟩, m'⟩ ⟨hle, hne⟩
  rw [Path.before_iff, Path.same_iff]
  rcases Prod.Lex.toLex_le_toLex.mp hle with hlt | ⟨heq, hle⟩
  · exact .inl hlt
  · exact .inr ⟨heq, lt_of_le_of_ne hle fun hsame => hne (congrArg Key.mk hsame)⟩

-- After any operations on a cache that was empty at first, all of which succeeded, what is looked up,
-- found in an index or listed is what was put in last and not taken out since.
theorem shows_contents (c : Cache) (start h : Host) (ops : List Op) (hv : start.Valid)
    (hs : start.tree.Single) (ho : start.isDirectory c.dir = true) (hvacant : c.Vacant start)
    (hr : c.Reached start ops h) : c.Shows (Contents.ofOps ops) (sourcesOf ops) h := by
  have hk := hr.kept (kept_start hv hs ho hvacant)
  obtain ⟨all, hall⟩ := hk.ready.entries_ok (hv.opens ho).2
  have hnodup := entries_nodup hk.single hall
  exact ⟨fun _ hplain => hk.lookup hplain, fun _ ha => hk.index? ha,
    ⟨all, hall, hnodup, fun _ _ => hk.mem_entries_iff hall, pairwise_sources hnodup (entries_sorted hall)⟩⟩

def cabinet : Host where
  tree := ⟨[(["c"], .directory ⟨0, 0⟩), (["p"], .file "x".toUTF8 ⟨1, 5⟩)]⟩
  cwd := []
  clock := ⟨4, 0⟩
  cacheHome := none

def cabinetCache : Cache := ⟨⟨"c"⟩⟩

def cabinetMetadata : Metadata := ⟨⟨"/p"⟩, [⟨"/p"⟩], ⟨4, 20⟩⟩

-- The metadata of a source that is gone.
def cabinetGone : Metadata := ⟨⟨"/a"⟩, [], ⟨4, 0⟩⟩

def cabinetIndex : Index := ⟨⟨"/p"⟩, [⟨"/p"⟩], [⟨"n", some ⟨"/p"⟩, ⟨"/p"⟩⟩]⟩

def cabinetOps : List Op :=
  [.store ⟨"ab"⟩ "old" cabinetMetadata [], .store ⟨"ef"⟩ "other" ⟨⟨"/q"⟩, [], ⟨4, 0⟩⟩ [],
    .store ⟨"ab"⟩ "new" cabinetMetadata [], .store ⟨"cd"⟩ "more" cabinetGone [], .remove ⟨"ef"⟩,
    .writeIndex cabinetIndex]

theorem mem_cabinet {m : Metadata} :
    (∃ code, Contents.entry? (Contents.ofOps cabinetOps) k = some (code, m)) ↔
      (k, m) ∈ [(⟨"cd"⟩, cabinetGone), (⟨"ab"⟩, cabinetMetadata)] := by
  simp only [Contents.ofOps, cabinetOps, List.foldl_cons, List.foldl_nil, Contents.after,
    Contents.withEntry, Contents.withIndex, Contents.empty, Function.update_apply, List.mem_cons,
    Prod.mk.injEq, List.not_mem_nil, or_false]
  split_ifs with hef hcd hab
  · simp [hef]
  · simp [hcd, eq_comm]
  · simp [hab, eq_comm]
  · simp [hcd, hab]

theorem entries_cabinet {sources : List Path}
    (hshows : cabinetCache.Shows (Contents.ofOps cabinetOps) sources h) :
    cabinetCache.entries h = .ok [(⟨"cd"⟩, cabinetGone), (⟨"ab"⟩, cabinetMetadata)] := by
  obtain ⟨all, hall, hnodup, hmem, hsorted⟩ := hshows.entries
  have hperm : all.Perm [(⟨"cd"⟩, cabinetGone), (⟨"ab"⟩, cabinetMetadata)] :=
    (List.perm_ext_iff_of_nodup hnodup.of_map (by decide)).mpr fun x => (hmem x.1 x.2).trans mem_cabinet
  rcases List.perm_pair.mp hperm with rfl | rfl
  · exact hall
  · exact absurd hsorted (by decide)

-- An entry is stored, stored again, and found as it was stored last, with the index that was written
-- last. Another one is stored for a source that is gone, and a third one is removed, which leaves its
-- index. Then all is cleared.
theorem shows_contents_cabinet : ∃ h h', cabinetCache.Reached cabinet cabinetOps h ∧
    cabinetCache.Shows (Contents.ofOps cabinetOps) (sourcesOf cabinetOps) h ∧
    cabinetCache.lookup h ⟨"ab"⟩ = .fresh "new" cabinetMetadata ∧
    cabinetCache.lookup h ⟨"cd"⟩ = .stale ∧ cabinetCache.lookup h ⟨"ef"⟩ = .missing ∧
    cabinetCache.index? h ⟨"/p"⟩ = some cabinetIndex ∧
    cabinetCache.index? h ⟨"/q"⟩ = some ⟨⟨"/q"⟩, [], []⟩ ∧
    cabinetCache.entries h = .ok [(⟨"cd"⟩, cabinetGone), (⟨"ab"⟩, cabinetMetadata)] ∧
    cabinetCache.Reached cabinet (cabinetOps ++ [.clear]) h' ∧
    cabinetCache.lookup h' ⟨"ab"⟩ = .missing ∧ cabinetCache.index? h' ⟨"/p"⟩ = none ∧
    cabinetCache.entries h' = .ok [] := by
  have hok : (cabinetCache.runAll cabinet cabinetOps).any fun h =>
      cabinetMetadata.isFresh h && !cabinetGone.isFresh h && h.present ⟨"/p"⟩ &&
        ((Change.makeAll (cabinetCache.clearing [⟨"cd"⟩, ⟨"ab"⟩])).run h).1.toBool := by
    decide +kernel
  have hshown : ∀ ops h, cabinetCache.Reached cabinet ops h →
      cabinetCache.Shows (Contents.ofOps ops) (sourcesOf ops) h := fun ops h hr =>
    shows_contents cabinetCache cabinet h ops ⟨.of_entries (by decide), by decide⟩ (by decide) (by decide)
      (vacant_of_entries (by decide)) hr
  have hdistinct : ∀ source ∈ [(⟨"/p"⟩ : Path), ⟨"/q"⟩], Alone (sourcesOf cabinetOps) source := by
    unfold Alone
    decide +kernel
  obtain ⟨hp, hq⟩ : Alone (sourcesOf cabinetOps) ⟨"/p"⟩ ∧ Alone (sourcesOf cabinetOps) ⟨"/q"⟩ := by
    simpa using hdistinct
  cases hrun : cabinetCache.runAll cabinet cabinetOps with
  | none =>
    rw [hrun] at hok
    cases hok
  | some h =>
    rw [hrun] at hok
    simp only [Option.any_some, Bool.and_eq_true, Bool.not_eq_true'] at hok
    obtain ⟨⟨⟨hfresh, hstale⟩, hpresent⟩, hdone⟩ := hok
    have hreached : cabinetCache.Reached cabinet cabinetOps h := Reached.runAll .start (by decide) hrun
    have hshows := hshown cabinetOps h hreached
    have hentries := entries_cabinet hshows
    cases hcleared : (Change.makeAll (cabinetCache.clearing [⟨"cd"⟩, ⟨"ab"⟩])).run h with
    | mk result h' =>
      rw [hcleared] at hdone
      cases result with
      | error failure => cases hdone
      | ok _ =>
        have hclear : (Op.clear.action cabinetCache).run h = (.ok (), h') := by
          unfold Op.action
          rw [run_bind, clear_run, hentries]
          dsimp only [List.map]
          rw [hcleared]
          rfl
        have hreached' : cabinetCache.Reached cabinet (cabinetOps ++ [.clear]) h' :=
          .op hreached trivial hclear
        have hshows' := hshown _ h' hreached'
        refine ⟨h, h', hreached, hshows, ?_, ?_, ?_, ?_, ?_, hentries, hreached', ?_, ?_, ?_⟩
        · exact (hshows.lookup ⟨"ab"⟩ ⟨by decide, by decide⟩).trans (if_pos hfresh)
        · exact (hshows.lookup ⟨"cd"⟩ ⟨by decide, by decide⟩).trans (if_neg (by simp [hstale]))
        · exact hshows.lookup ⟨"ef"⟩ ⟨by decide, by decide⟩
        · refine (hshows.index? ⟨"/p"⟩ hp).trans (if_pos ?_)
          simp [cabinetIndex, hpresent]
        · exact hshows.index? ⟨"/q"⟩ hq
        · exact hshows'.lookup ⟨"ab"⟩ ⟨by decide, by decide⟩
        · exact hshows'.index? ⟨"/p"⟩ hp
        · obtain ⟨all, hall, -, hmem, -⟩ := hshows'.entries
          obtain rfl : all = [] := List.eq_nil_iff_forall_not_mem.mpr fun x hx => by
            obtain ⟨code, he⟩ := (hmem x.1 x.2).mp hx
            cases he
          exact hall

end TemplateEngine.Cache
