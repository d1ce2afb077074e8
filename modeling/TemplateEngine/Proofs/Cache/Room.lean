import TemplateEngine.Proofs.Cache.Tidy
import TemplateEngine.Proofs.Files.Canonical

-- How long the paths of a cache are. All digests are of one length, so that whether an entry can be
-- stored depends on the path of the directory alone.
namespace TemplateEngine

namespace Digest

theorem length_hexText (n : UInt32) : (hexText n).length = 8 := by simp [hexText]

theorem length_compress {state : List UInt32} (hstate : state.length = 8) (block : List UInt32) :
    (compress state block).length = 8 := by
  simp [compress, hstate, State.toWords]

theorem length_absorb {waiting : List UInt32 × List UInt32} (hwaiting : waiting.1.length = 8)
    (word : UInt32) : (absorb waiting word).1.length = 8 := by
  unfold absorb
  dsimp only
  split
  · exact length_compress hwaiting _
  · exact hwaiting

theorem length_sha256 (bytes : List UInt8) : (sha256 bytes).toList.length = 64 := by
  have hfold : ∀ (ws : List UInt32) (waiting : List UInt32 × List UInt32), waiting.1.length = 8 →
      (ws.foldl absorb waiting).1.length = 8 := by
    intro ws
    induction ws with
    | nil => exact fun _ hwaiting => hwaiting
    | cons word ws ih => exact fun _ hwaiting => ih _ (length_absorb hwaiting word)
  have hfinal := hfold (words (padded bytes)) (initialWords, []) rfl
  simp [sha256, List.length_flatMap, length_hexText, hfinal]

theorem utf8ByteSize_sha256 (bytes : List UInt8) : (sha256 bytes).utf8ByteSize = 64 := by
  have hnarrow : ∀ c ∈ hexDigits, c.utf8Size = 1 := by
    have hall : hexDigits.all (fun c => c.utf8Size == 1) = true := by decide
    simpa using List.all_eq_true.mp hall
  have hdigest : ∀ c ∈ (sha256 bytes).toList, c.utf8Size = 1 := fun c hc => hnarrow c (mem_sha256 hc)
  rw [← String.ofList_toList (s := sha256 bytes), utf8ByteSize_ofList_of_narrow hdigest, length_sha256]

end Digest

namespace Cache

variable {c : Cache} {h : Host} {k : Key} {source : Path}

theorem utf8ByteSize_digest (text : String) : (digest text).utf8ByteSize = 64 := Digest.utf8ByteSize_sha256 _

theorem utf8ByteSize_indexName (source : Path) : (indexName source).utf8ByteSize = 69 := by
  rw [indexName, String.utf8ByteSize_append, utf8ByteSize_digest]
  rfl

-- The paths of all indexes are of one length, and those of entries are shorter. The path of the
-- directory is in front of them.
theorem exists_utf8ByteSize (c : Cache) : ∃ size, c.dir.text.utf8ByteSize ≤ size ∧
    (∀ source, (c.indexPath source).text.utf8ByteSize = size + 75) ∧
      ∀ k : Key, k.Plain → k.digits.utf8ByteSize = 64 →
        (c.codePath k).text.utf8ByteSize = size + 74 := by
  have hindex : IsFileName "index" := by decide
  have hlength : "index".utf8ByteSize = 5 := rfl
  have hslash : "/".utf8ByteSize = 1 := rfl
  have hsuffix : codeSuffix.utf8ByteSize = 10 := rfl
  obtain ⟨front, hle, hfront⟩ := c.dir.exists_text_join
  refine ⟨front.utf8ByteSize, hle, fun source => ?_, fun k hk hsize => ?_⟩
  · have htext := Path.text_join_join hindex (isFileName_indexName source) c.dir
    rw [hfront _ hindex] at htext
    have hpath := congrArg String.utf8ByteSize htext
    simp only [String.utf8ByteSize_append, utf8ByteSize_indexName, hlength, hslash] at hpath
    exact hpath
  · have hpath := congrArg String.utf8ByteSize (hfront _ hk.isFileName_code)
    simp only [String.utf8ByteSize_append, hsize, hsuffix] at hpath
    exact hpath

-- Whether the paths of a cache are short enough to be used. Those of indexes are the longest.
def Roomy (c : Cache) : Prop := (c.indexPath ⟨""⟩).text.utf8ByteSize < FileTree.maxPath

instance (c : Cache) : Decidable c.Roomy := inferInstanceAs (Decidable (_ < _))

theorem Roomy.dir_lt (hroom : c.Roomy) : c.dir.text.utf8ByteSize + 75 < FileTree.maxPath := by
  obtain ⟨size, hle, hindex, -⟩ := c.exists_utf8ByteSize
  rw [Roomy, hindex] at hroom
  omega

theorem Ready.nul_not_mem (hr : c.Ready h) : Char.ofNat 0 ∉ c.dir.text.toList := by
  rcases hr.usable with hempty | husable
  · rw [hempty]
    decide
  · exact FileTree.unusable?_eq_none husable

-- An entry of any source can be stored just where there is room.
theorem Ready.stored_eq_ok_iff (hr : c.Ready h) (hk : k.Plain) (hsize : k.digits.utf8ByteSize = 64) :
    c.stored k source = .ok () ↔ c.Roomy := by
  obtain ⟨size, -, hindex, hcode⟩ := c.exists_utf8ByteSize
  have hnul := hr.nul_not_mem
  have hroom : c.Roomy ↔ size + 75 < FileTree.maxPath := by rw [Roomy, hindex]
  have hfits : c.Fits (k.digits ++ codeSuffix) ↔ size + 74 < FileTree.maxPath := by
    rw [← hcode k hk hsize]
    have hname : (k.digits ++ codeSuffix).utf8ByteSize ≤ FileTree.maxName := by
      rw [String.utf8ByteSize_append, hsize]
      decide
    exact (and_iff_left hname).trans (Path.usable_join_iff hnul hk.isFileName_code)
  have hfitsIndex : c.FitsIndex source ↔ size + 75 < FileTree.maxPath := by
    rw [← hindex source]
    have hname : (indexName source).utf8ByteSize ≤ FileTree.maxName := by
      rw [utf8ByteSize_indexName]
      decide
    refine (and_iff_left hname).trans (Path.usable_join_iff ?_ (isFileName_indexName source))
    exact Path.nul_not_mem_join hnul (by decide)
  unfold Cache.stored
  split
  · split
    · next hfits' => simpa [hroom] using hfitsIndex.mp hfits'
    · next hfits' =>
      constructor
      · nofun
      · exact fun hc => absurd (hfitsIndex.mpr (hroom.mp hc)) hfits'
  · next hfits' =>
    constructor
    · nofun
    · intro hc
      have := hroom.mp hc
      exact absurd (hfits.mpr (by omega)) hfits'

theorem Ready.store_eq_ok_iff {code : String} {m : Metadata} {resolutions : List Compile.Resolution}
    (hr : c.Ready h) (hvacant : c.Vacant h) (hk : k.Plain) (hsize : k.digits.utf8ByteSize = 64) :
    ((c.store k code m resolutions).run h).1 = .ok () ↔ c.Roomy := by
  have hstore : Yields (c.Tidy h fun _ _ => True) (c.store k code m resolutions) (c.stored k m.source) h :=
    (hr.tidy hvacant).store hk trivial trivial trivial
  obtain ⟨_, hrun, -⟩ := hstore
  rw [hrun]
  exact hr.stored_eq_ok_iff hk hsize

end Cache

end TemplateEngine
