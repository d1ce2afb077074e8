import TemplateEngine.Cache.Store
import TemplateEngine.Proofs.Files.Place
import TemplateEngine.Proofs.Runs

-- The names of cached files. They lie in the directory of the cache, and names of different kinds or
-- of different keys are different. A key's material tells which files it was made of, and when they
-- were changed.
namespace TemplateEngine

theorem isFileName_append {stem suffix : String} (hslash : '/' ∉ stem.toList)
    (hnul : Char.ofNat 0 ∉ stem.toList) (hsuffix : IsFileName suffix) (hlong : 2 < suffix.length) :
    IsFileName (stem ++ suffix) := by
  have hlength : 2 < (stem ++ suffix).length := by
    rw [String.length_append]
    omega
  have hne : ∀ short : String, short.length ≤ 2 → stem ++ suffix ≠ short := by
    intro short hshort heq
    rw [heq] at hlength
    omega
  refine ⟨hne _ (by decide), hne _ (by decide), hne _ (by decide), ?_, ?_⟩
  · simp [hslash, hsuffix.2.2.2.1]
  · simp [hnul, hsuffix.2.2.2.2]

namespace Digest

def hexDigits : List Char := "0123456789abcdef".toList

theorem mem_hexText {n : UInt32} {c : Char} (hc : c ∈ hexText n) : c ∈ hexDigits := by
  have hall : ∀ d : Fin 16,
      (if d.val < 10 then Char.ofNat (48 + d) else Char.ofNat (87 + d)) ∈ hexDigits := by decide
  obtain ⟨i, -, rfl⟩ := List.mem_map.mp hc
  have hlt : ((n >>> UInt32.ofNat (28 - 4 * i)) &&& 0xF).toNat < 16 := by
    rw [UInt32.toNat_and]
    exact Nat.lt_of_le_of_lt Nat.and_le_right (by decide)
  exact hall ⟨_, hlt⟩

theorem mem_sha256 {bytes : List UInt8} {c : Char} (hc : c ∈ (sha256 bytes).toList) :
    c ∈ hexDigits := by
  unfold sha256 at hc
  rw [String.toList_ofList] at hc
  obtain ⟨n, -, hc⟩ := List.mem_flatMap.mp hc
  exact mem_hexText hc

end Digest

namespace Cache

-- Whether a key may stand in the name of a file.
structure Key.Plain (k : Key) : Prop where
  slash : '/' ∉ k.digits.toList
  nul : Char.ofNat 0 ∉ k.digits.toList

instance (k : Key) : Decidable k.Plain :=
  decidable_of_iff ('/' ∉ k.digits.toList ∧ Char.ofNat 0 ∉ k.digits.toList)
    ⟨fun h => ⟨h.1, h.2⟩, fun h => ⟨h.slash, h.nul⟩⟩

theorem digest_plain (text : String) :
    '/' ∉ (digest text).toList ∧ Char.ofNat 0 ∉ (digest text).toList :=
  ⟨fun hc => absurd (Digest.mem_sha256 hc) (by decide),
    fun hc => absurd (Digest.mem_sha256 hc) (by decide)⟩

theorem Key.ofFiles_plain (salt : String) (files : List Stamped) : (Key.ofFiles salt files).Plain :=
  ⟨(digest_plain _).1, (digest_plain _).2⟩

def codeSuffix : String := ".code.json"

theorem codeSuffix_isFileName : IsFileName codeSuffix := by decide

def root (c : Cache) (cwd : Location) : Location := FileTree.place cwd c.dir

theorem place_codePath (c : Cache) (cwd : Location) {k : Key} (hk : k.Plain) :
    FileTree.place cwd (c.codePath k) = c.root cwd ++ [k.digits ++ codeSuffix] :=
  FileTree.place_join cwd c.dir (isFileName_append hk.slash hk.nul codeSuffix_isFileName (by decide))

theorem place_metaPath (c : Cache) (cwd : Location) {k : Key} (hk : k.Plain) :
    FileTree.place cwd (c.metaPath k) = c.root cwd ++ [k.digits ++ metaSuffix] :=
  FileTree.place_join cwd c.dir (isFileName_append hk.slash hk.nul (by decide) (by decide))

theorem place_indexDir (c : Cache) (cwd : Location) :
    FileTree.place cwd c.indexDir = c.root cwd ++ ["index"] :=
  FileTree.place_join cwd c.dir (by decide)

theorem place_indexPath (c : Cache) (cwd : Location) (source : Path) :
    FileTree.place cwd (c.indexPath source) = c.root cwd ++ ["index", digest source.text ++ ".json"] := by
  have hname : IsFileName (digest source.text ++ ".json") :=
    isFileName_append (digest_plain _).1 (digest_plain _).2 (by decide) (by decide)
  unfold indexPath
  change FileTree.place cwd (c.indexDir.join (digest source.text ++ ".json")) = _
  rw [FileTree.place_join cwd c.indexDir hname, place_indexDir]
  simp

end Cache
end TemplateEngine
