import TemplateEngine.Proofs.Cache.Filing
import TemplateEngine.Proofs.Cache.Records
import TemplateEngine.Proofs.Time.Stamp

-- What a cache reads of its own files: exactly the texts that stand under names that fit.
namespace TemplateEngine.Cache

variable {c : Cache} {h h' : Host} {k : Key} {m : Metadata} {i : Index} {name text code : String}
  {source : Path}

theorem Ready.present_child_iff (hr : c.Ready h) (hname : IsFileName name) :
    h.present (c.dir.join name) = true ↔
      c.Fits name ∧ (h.tree.entry? (c.root h.cwd ++ [name])).isSome = true :=
  (hr.opens.present_join_iff hname).trans and_assoc.symm

theorem Ready.read_child_iff (hr : c.Ready h) (hname : IsFileName name) :
    h.read (c.dir.join name) = .ok text ↔
      c.Fits name ∧ ∃ changed, h.tree.entry? (c.root h.cwd ++ [name]) = some (.file text.toUTF8 changed) :=
  (hr.opens.read_join_iff hname).trans and_assoc.symm

-- The directory of indexes is there where one of them is.
theorem Ready.opens_indexDir (hr : c.Ready h) {e : Entry} (he : h.tree.entry? (c.indexPlace h.cwd source) = some e) :
    h.Opens c.indexDir (c.indexHome h.cwd) := by
  have hparent := hr.valid.tree.parent _ _ he
  have hhome : (c.indexPlace h.cwd source).parent = c.indexHome h.cwd := by
    simp [indexPlace, Location.parent]
  rw [hhome] at hparent
  rcases FileTree.isDirectoryAt_iff.mp hparent with hnil | ⟨changed, hdir⟩
  · simp [indexHome] at hnil
  · have hindex : IsFileName "index" := by decide
    exact hr.opens.join hindex (by decide) hdir

theorem Ready.read_index_iff (hr : c.Ready h) :
    h.read (c.indexPath source) = .ok text ↔ FileTree.unusable? (c.indexPath source) = none ∧
      (indexName source).utf8ByteSize ≤ FileTree.maxName ∧
        ∃ changed, h.tree.entry? (c.indexPlace h.cwd source) = some (.file text.toUTF8 changed) := by
  constructor
  · intro hread
    obtain ⟨changed, he⟩ := Host.read_eq_ok hread
    rw [place_indexPath_eq] at he
    exact ((hr.opens_indexDir he).read_join_iff (isFileName_indexName source)).mp hread
  · rintro ⟨hu, hlong, changed, he⟩
    exact ((hr.opens_indexDir he).read_join_iff (isFileName_indexName source)).mpr ⟨hu, hlong, changed, he⟩

-- Metadata is read back whole if its time can be written down.
theorem Metadata.ofText?_text_of_dated (hm : m.compiledAt.Dated) : Metadata.ofText? m.text = some m := by
  unfold ofText? text
  rw [Json.Document.read?_toIndentedText m.textual_encode, Option.bind_some, decode?_encode,
    Instant.ofStamp?_stamp hm]
  rfl

theorem metadataAt?_of_read {p : Path} (hread : h.read p = .ok text) :
    metadataAt? h p = Metadata.ofText? text := by
  unfold metadataAt?
  rw [hread]
  rfl

-- An entry whose files can both be read is fresh or stale, as its metadata says.
theorem lookup_of_read (hpresent : h.present (c.metaPath k) = true)
    (hmeta : metadataAt? h (c.metaPath k) = some m) (hcode : h.read (c.codePath k) = .ok code) :
    c.lookup h k = if m.isFresh h then .fresh code m else .stale := by
  unfold lookup
  rw [if_pos hpresent, hmeta]
  dsimp only
  rw [hcode]

-- Without metadata there is no entry, even where the directory of the cache is gone.
theorem lookup_missing (hv : h.Valid) (hk : k.Plain) (he : h.tree.entry? (c.metaPlace h.cwd k) = none) :
    c.lookup h k = .missing := by
  have habsent : ¬h.present (c.metaPath k) = true := by
    intro hpresent
    unfold Host.present at hpresent
    cases hl : h.resolve (c.metaPath k) with
    | error fault =>
      rw [hl] at hpresent
      cases hpresent
    | ok l =>
      obtain rfl : l = c.metaPlace h.cwd k := by
        rw [← place_metaPath_eq c h.cwd hk]
        exact (FileTree.resolve_eq_ok hl).2
      exact (owns_meta k).ne_nil (hv.tree.eq_nil_of_resolve hl he)
  unfold lookup
  rw [if_neg habsent]

-- The files of an entry.
structure Filed (c : Cache) (k : Key) (code : String) (m : Metadata) (h : Host) : Prop where
  plain : k.Plain
  dated : m.compiledAt.Dated
  fitsCode : c.Fits (k.digits ++ codeSuffix)
  fitsMeta : c.Fits (k.digits ++ metaSuffix)
  code : ∃ changed, h.tree.entry? (c.codePlace h.cwd k) = some (.file code.toUTF8 changed)
  metadata : ∃ changed, h.tree.entry? (c.metaPlace h.cwd k) = some (.file m.text.toUTF8 changed)

-- The file of an index.
structure Indexed (c : Cache) (i : Index) (h : Host) : Prop where
  usable : FileTree.unusable? (c.indexPath i.source) = none
  size : (indexName i.source).utf8ByteSize ≤ FileTree.maxName
  index : ∃ changed, h.tree.entry? (c.indexPlace h.cwd i.source) = some (.file i.text.toUTF8 changed)

theorem Filed.read_code (hf : c.Filed k code m h) (hr : c.Ready h) : h.read (c.codePath k) = .ok code :=
  (hr.read_child_iff hf.plain.isFileName_code).mpr ⟨hf.fitsCode, hf.code⟩

theorem Filed.metadataAt?_eq (hf : c.Filed k code m h) (hr : c.Ready h) :
    metadataAt? h (c.metaPath k) = some m := by
  have hread : h.read (c.metaPath k) = .ok m.text :=
    (hr.read_child_iff hf.plain.isFileName_meta).mpr ⟨hf.fitsMeta, hf.metadata⟩
  rw [metadataAt?_of_read hread, Metadata.ofText?_text_of_dated hf.dated]

theorem Filed.isSome_metaPlace (hf : c.Filed k code m h) :
    (h.tree.entry? (c.metaPlace h.cwd k)).isSome = true := by
  obtain ⟨changed, he⟩ := hf.metadata
  rw [he]
  rfl

theorem Filed.lookup (hf : c.Filed k code m h) (hr : c.Ready h) :
    c.lookup h k = if m.isFresh h then .fresh code m else .stale :=
  lookup_of_read ((hr.present_child_iff hf.plain.isFileName_meta).mpr ⟨hf.fitsMeta, hf.isSome_metaPlace⟩)
    (hf.metadataAt?_eq hr) (hf.read_code hr)

theorem Indexed.index?_eq (hi : c.Indexed i h) (hr : c.Ready h) :
    c.index? h i.source = if i.dependencies.all h.present then some i else none := by
  unfold Cache.index?
  rw [hr.read_index_iff.mpr ⟨hi.usable, hi.size, hi.index⟩]
  change (Index.ofText? i.text >>= _) = _
  rw [Index.ofText?_text]
  change (if (i.source.same i.source && i.dependencies.all h.present) = true then some i else none) = _
  have hsame : i.source.same i.source = true := beq_self_eq_true _
  rw [hsame, Bool.true_and]

theorem Stored.filed (hs : c.Stored k code m i h h') (hk : k.Plain) (hm : m.compiledAt.Dated) :
    c.Filed k code m h' :=
  ⟨hk, hm, hs.fitsCode, hs.fitsMeta, ⟨_, hs.cwd ▸ hs.code⟩, ⟨_, hs.cwd ▸ hs.metadata⟩⟩

theorem Stored.indexed (hs : c.Stored k code m i h h') : c.Indexed i h' :=
  ⟨hs.usableIndex, hs.sizeIndex, ⟨_, hs.cwd ▸ hs.index⟩⟩

end TemplateEngine.Cache
