import TemplateEngine.Files.Host
import Mathlib.Data.List.Basic

-- Where paths lead. There are no links, so a path can lead to one place only, whatever the tree:
-- the tree decides whether it leads there at all.
namespace TemplateEngine

-- What an entry of a directory may be called.
def IsFileName (n : String) : Prop :=
  n ≠ "" ∧ n ≠ "." ∧ n ≠ ".." ∧ '/' ∉ n.toList ∧ Char.ofNat 0 ∉ n.toList

instance (n : String) : Decidable (IsFileName n) := inferInstanceAs (Decidable (_ ∧ _ ∧ _ ∧ _ ∧ _))

-- Places are proper when all names on the way to them are names of files.
def Location.Proper (l : Location) : Prop := ∀ n ∈ l, IsFileName n

instance (l : Location) : Decidable l.Proper := inferInstanceAs (Decidable (∀ n ∈ l, IsFileName n))

theorem Location.Proper.of_mem_some {l m : Location} (hl : l.Proper) (hm : m ∈ some l) : m.Proper := by
  cases hm
  exact hl

namespace Path

private theorem modifyHead_self {α : Type} (xs : List α) : xs.modifyHead (fun x => x) = xs := by
  cases xs <;> rfl

theorem map_fst_pieces (position : Nat) (piece cs : List Char) :
    (pieces position piece cs).map (·.1) = (cs.splitOn '/').modifyHead (piece.reverse ++ ·) := by
  induction cs generalizing position piece with
  | nil => simp [pieces]
  | cons c cs ih =>
    by_cases hc : c = '/'
    · simp [pieces, List.splitOn_cons_eq_if_modifyHead, hc, ih, modifyHead_self]
    · simp [pieces, List.splitOn_cons_eq_if_modifyHead, hc, ih, Function.comp_def]

theorem map_fst_pieces_zero (cs : List Char) (position : Nat) :
    (pieces position [] cs).map (·.1) = cs.splitOn '/' := by
  simp [map_fst_pieces, modifyHead_self]

theorem stepNames_eq (p : Path) :
    FileTree.stepNames p = (p.text.toList.splitOn '/').map String.ofList := by
  rw [← map_fst_pieces_zero _ 0, FileTree.stepNames, List.map_map]
  rfl

theorem map_fst_partOf? (first : Bool) (piece : List Char × Nat) :
    (partOf? first piece).map (·.1) = (partOf? first (piece.1, 0)).map (·.1) := by
  unfold partOf?
  by_cases he : piece.1 = []
  · simp [he]
  by_cases hh : piece.1 = ['.']
  · cases first <;> simp [hh]
  by_cases hu : piece.1 = ['.', '.']
  · simp [hu]
  · simp [he, hh, hu]

end Path

namespace Location

theorem toList_path (l : Location) :
    l.path.text.toList = '/' :: ['/'].intercalate (l.map String.toList) := by
  simp [path, String.toList_intercalate]

@[simp] theorem isAbsolute_path (l : Location) : l.path.isAbsolute = true := by
  simp [Path.isAbsolute, toList_path]

-- The pieces of the path of a place, after the empty one in front of the first slash.
theorem splitOn_intercalate_names {l : Location} (hl : l.Proper) :
    (['/'].intercalate (l.map String.toList)).splitOn '/' =
      if l = [] then [[]] else l.map String.toList := by
  by_cases he : l = []
  · simp [he, List.intercalate]
  · rw [if_neg he]
    refine List.splitOn_intercalate '/' ?_ (by simpa using he)
    intro cs hcs
    obtain ⟨n, hn, rfl⟩ := List.mem_map.mp hcs
    exact (hl n hn).2.2.2.1

private theorem partOf?_name {n : String} (hn : IsFileName n) :
    (Path.partOf? false (n.toList, 0)).map (·.1) = some (.name n) := by
  obtain ⟨he, hh, hu, -⟩ := hn
  have hh' : n.toList ≠ ['.'] := fun h => hh (String.toList_inj.mp h)
  have hu' : n.toList ≠ ['.', '.'] := fun h => hu (String.toList_inj.mp h)
  simp [Path.partOf?, he, hh', hu']

theorem parts_path {l : Location} (hl : l.Proper) : l.path.parts = .root :: l.map .name := by
  have hpieces : ((Path.pieces 1 [] (['/'].intercalate (l.map String.toList))).filterMap
      (Path.partOf? false)).map (·.1) = l.map .name := by
    have hf : (fun x => (Path.partOf? false x).map (·.1)) =
        (fun cs => (Path.partOf? false (cs, 0)).map (·.1)) ∘ Prod.fst :=
      funext fun x => Path.map_fst_partOf? false x
    rw [List.map_filterMap, hf, ← List.filterMap_map, Path.map_fst_pieces_zero,
      splitOn_intercalate_names hl]
    by_cases he : l = []
    · simp [he, Path.partOf?]
    · rw [if_neg he, List.filterMap_map]
      have hs : l.filterMap ((fun cs => (Path.partOf? false (cs, 0)).map (·.1)) ∘ String.toList) =
          l.filterMap (some ∘ .name) :=
        List.filterMap_congr fun n hn => partOf?_name (hl n hn)
      rw [hs, List.filterMap_eq_map]
  unfold Path.parts Path.located
  rw [isAbsolute_path, toList_path]
  simpa [Path.pieces, Path.partOf?] using hpieces

theorem parts_inj {l m : Location} (hl : l.Proper) (hm : m.Proper)
    (h : l.path.parts = m.path.parts) : l = m := by
  rw [parts_path hl, parts_path hm, List.cons.injEq] at h
  exact (List.map_inj_right fun _ _ hab => PathPart.name.inj hab).mp h.2

theorem path_same_iff {l m : Location} (hl : l.Proper) (hm : m.Proper) :
    l.path.same m.path = true ↔ l = m := by
  constructor
  · intro h
    exact parts_inj hl hm (by simpa [Path.same] using h)
  · rintro rfl
    simp [Path.same]

end Location

namespace FileTree

-- Where a name leads from a place if it leads anywhere.
def lexicalStep (l : Location) (name : String) : Location :=
  if name = "" || name = "." then l else if name = ".." then l.parent else l ++ [name]

-- Where a path leads if it leads anywhere.
def place (cwd : Location) (p : Path) : Location := (stepNames p).foldl lexicalStep (start cwd p)

theorem step_eq_ok_iff {t : FileTree} {l m : Location} {name : String} :
    t.step l name = .ok m ↔
      t.isDirectoryAt l = true ∧ m = lexicalStep l name ∧
        (name ∈ ["", ".", ".."] ∨ name.utf8ByteSize ≤ maxName ∧ (t.entry? m).isSome = true) := by
  unfold step lexicalStep
  by_cases hl : t.isDirectoryAt l = true
  · by_cases hstay : name = "" ∨ name = "."
    · rcases hstay with rfl | rfl <;> simp [hl, @eq_comm _ l]
    by_cases hup : name = ".."
    · subst hup
      simp [hl, @eq_comm _ l.parent]
    · have hnames : name ∉ ["", ".", ".."] := by simp_all
      have hneither : ¬(decide (name = "") || decide (name = ".")) = true := by simpa using hstay
      rw [if_neg (by simp [hl]), if_neg hneither, if_neg hup, if_neg hneither, if_neg hup]
      by_cases hlong : maxName < name.utf8ByteSize
      · rw [if_pos hlong]
        simp [hnames, Nat.not_le.mpr hlong]
      · rw [if_neg hlong]
        cases he : t.entry? (l ++ [name]) with
        | none =>
          constructor
          · intro h
            cases h
          · rintro ⟨-, rfl, h | ⟨-, h⟩⟩
            · exact absurd h hnames
            · rw [he] at h
              cases h
        | some e =>
          constructor
          · intro h
            cases h
            exact ⟨hl, rfl, .inr ⟨Nat.not_lt.mp hlong, by rw [he]; rfl⟩⟩
          · rintro ⟨-, rfl, -⟩
            rfl
  · simp [hl]

theorem walk_cons_eq_ok {t : FileTree} {name : String} {names : List String} {l l' : Location}
    (h : t.walk l (name :: names) = .ok l') : ∃ m, t.step l name = .ok m ∧ t.walk m names = .ok l' := by
  simp only [walk, List.foldlM_cons] at h
  cases hs : t.step l name with
  | error fault => simp [hs, bind, Except.bind] at h
  | ok m =>
    simp only [hs, bind, Except.bind] at h
    exact ⟨m, rfl, h⟩

theorem walk_eq_ok {t : FileTree} {names : List String} {l l' : Location}
    (h : t.walk l names = .ok l') : l' = names.foldl lexicalStep l := by
  induction names generalizing l with
  | nil => cases h; rfl
  | cons name names ih =>
    obtain ⟨m, hs, hw⟩ := walk_cons_eq_ok h
    rw [List.foldl_cons, ← (step_eq_ok_iff.mp hs).2.1]
    exact ih hw

theorem unusable?_eq_none {p : Path} (h : unusable? p = none) : Char.ofNat 0 ∉ p.text.toList := by
  unfold unusable? at h
  split at h
  · cases h
  split at h
  · cases h
  · next hn => simpa using hn

theorem resolve_eq_ok {t : FileTree} {cwd l : Location} {p : Path} (h : t.resolve cwd p = .ok l) :
    unusable? p = none ∧ l = place cwd p := by
  unfold resolve at h
  split at h
  · cases h
  · next hu => exact ⟨hu, walk_eq_ok h⟩

-- Names on a path are names of files but for those that stay or lead up.
theorem lexicalStep_proper {l : Location} {name : String} (hl : l.Proper)
    (hslash : '/' ∉ name.toList) (hnul : Char.ofNat 0 ∉ name.toList) :
    (lexicalStep l name).Proper := by
  unfold lexicalStep
  split
  · exact hl
  · next hs =>
    split
    · exact fun n hn => hl n (List.dropLast_subset l hn)
    · next hu =>
      intro n hn
      rcases List.mem_append.mp hn with hn | hn
      · exact hl n hn
      · rw [List.mem_singleton] at hn
        subst hn
        simp only [Bool.or_eq_true, decide_eq_true_eq, not_or] at hs
        exact ⟨hs.1, hs.2, hu, hslash, hnul⟩

theorem foldl_lexicalStep_proper {names : List String} {l : Location} (hl : l.Proper)
    (hnames : ∀ n ∈ names, '/' ∉ n.toList ∧ Char.ofNat 0 ∉ n.toList) :
    (names.foldl lexicalStep l).Proper := by
  induction names generalizing l with
  | nil => exact hl
  | cons name names ih =>
    have hn := hnames name (by simp)
    exact ih (lexicalStep_proper hl hn.1 hn.2) fun n hm => hnames n (by simp [hm])

-- What is cut at slashes holds no slash, and nothing that was not there before.
theorem splitOn_slash {cs piece : List Char} (h : piece ∈ cs.splitOn '/') :
    '/' ∉ piece ∧ piece ⊆ cs := by
  induction cs generalizing piece with
  | nil => simp_all
  | cons c cs ih =>
    rw [List.splitOn_cons_eq_if_modifyHead] at h
    split at h
    · rcases List.mem_cons.mp h with rfl | h
      · simp
      · exact ⟨(ih h).1, fun x hx => List.mem_cons_of_mem _ ((ih h).2 hx)⟩
    · next hc =>
      cases hs : cs.splitOn '/' with
      | nil => exact absurd hs (List.splitOn_ne_nil _ _)
      | cons first others =>
        rw [hs] at h ih
        simp only [List.modifyHead_cons, List.mem_cons] at h
        rcases h with rfl | h
        · have hf := ih (List.mem_cons_self)
          refine ⟨?_, List.cons_subset_cons c hf.2⟩
          simp only [List.mem_cons, not_or]
          exact ⟨fun he => hc (by simp [← he]), hf.1⟩
        · have ho := ih (List.mem_cons_of_mem _ h)
          exact ⟨ho.1, fun x hx => List.mem_cons_of_mem _ (ho.2 hx)⟩

theorem place_proper {cwd : Location} {p : Path} (hcwd : cwd.Proper)
    (hp : Char.ofNat 0 ∉ p.text.toList) : (place cwd p).Proper := by
  refine foldl_lexicalStep_proper ?_ ?_
  · unfold start
    split
    · exact fun n hn => absurd hn (by simp)
    · exact hcwd
  · intro n hn
    rw [Path.stepNames_eq] at hn
    obtain ⟨piece, hpiece, rfl⟩ := List.mem_map.mp hn
    have h := splitOn_slash hpiece
    rw [String.toList_ofList]
    exact ⟨h.1, fun hm => hp (h.2 hm)⟩

theorem lexicalStep_name {name : String} (hname : IsFileName name) (l : Location) :
    lexicalStep l name = l ++ [name] := by
  obtain ⟨he, hh, hu, -⟩ := hname
  simp [lexicalStep, he, hh, hu]

-- Names of files lead from a place into what is below it.
theorem foldl_lexicalStep_names {l : Location} (hl : l.Proper) (m : Location) :
    l.foldl lexicalStep m = m ++ l := by
  induction l generalizing m with
  | nil => simp
  | cons n l ih =>
    rw [List.foldl_cons, lexicalStep_name (hl n (by simp)), ih fun k hk => hl k (by simp [hk])]
    simp

theorem stepNames_path {l : Location} (hl : l.Proper) :
    stepNames l.path = "" :: if l = [] then [""] else l := by
  rw [Path.stepNames_eq, Location.toList_path, List.splitOn_cons_eq_if_modifyHead,
    Location.splitOn_intercalate_names hl]
  by_cases he : l = [] <;> simp [he, Function.comp_def]

theorem place_path {l : Location} (hl : l.Proper) (cwd : Location) : place cwd l.path = l := by
  have hstart : start cwd l.path = [] := by simp [start]
  rw [place, stepNames_path hl, hstart]
  by_cases he : l = []
  · simp [he, lexicalStep]
  · rw [if_neg he, List.foldl_cons]
    exact foldl_lexicalStep_names hl []

private theorem splitOn_append_slash (cs ds : List Char) :
    (cs ++ '/' :: ds).splitOn '/' = cs.splitOn '/' ++ ds.splitOn '/' := by
  induction cs with
  | nil => simp [List.splitOn_cons_eq_if_modifyHead]
  | cons c cs ih =>
    rw [List.cons_append, List.splitOn_cons_eq_if_modifyHead, List.splitOn_cons_eq_if_modifyHead, ih]
    by_cases hc : c = '/'
    · simp [hc]
    · cases hs : cs.splitOn '/' with
      | nil => exact absurd hs (List.splitOn_ne_nil _ _)
      | cons first others => simp [hc]

private theorem splitOn_of_notMem {cs : List Char} (hcs : '/' ∉ cs) : cs.splitOn '/' = [cs] := by
  induction cs with
  | nil => rfl
  | cons c cs ih =>
    simp only [List.mem_cons, not_or] at hcs
    rw [List.splitOn_cons_eq_if_modifyHead, ih hcs.2]
    simp [Ne.symm hcs.1]

@[simp] theorem lexicalStep_empty (l : Location) : lexicalStep l "" = l := rfl

theorem stepNames_slash (text : String) : stepNames ⟨text ++ "/"⟩ = stepNames ⟨text⟩ ++ [""] := by
  rw [Path.stepNames_eq, Path.stepNames_eq, String.toList_append]
  change ((text.toList ++ '/' :: []).splitOn '/').map String.ofList = _
  rw [splitOn_append_slash, List.map_append]
  rfl

-- Pieces after a slash are steps from where the pieces before it lead.
theorem place_append_slash (cwd : Location) (front back : String) :
    place cwd ⟨front ++ "/" ++ back⟩ =
      ((back.toList.splitOn '/').map String.ofList).foldl lexicalStep (place cwd ⟨front ++ "/"⟩) := by
  have hstart : start cwd ⟨front ++ "/" ++ back⟩ = start cwd ⟨front ++ "/"⟩ := by
    cases hf : front.toList <;> simp [start, Path.isAbsolute, hf]
  have hsplit := splitOn_append_slash front.toList
  rw [place, place, hstart, Path.stepNames_eq, Path.stepNames_eq]
  simp only [String.toList_append, List.append_assoc]
  change List.foldl _ _ (((front.toList ++ '/' :: back.toList).splitOn '/').map _) =
    List.foldl _ (List.foldl _ _ (((front.toList ++ '/' :: []).splitOn '/').map _)) _
  rw [hsplit, hsplit]
  simp

theorem place_slash (cwd : Location) {p : Path} (hp : p.text.toList ≠ []) :
    place cwd ⟨p.text ++ "/"⟩ = place cwd p := by
  have hstart : start cwd ⟨p.text ++ "/"⟩ = start cwd p := by
    cases hf : p.text.toList with
    | nil => exact absurd hf hp
    | cons c cs => simp [start, Path.isAbsolute, hf]
  rw [place, place, hstart, Path.stepNames_eq, Path.stepNames_eq]
  simp only [String.toList_append]
  change List.foldl _ _ (((p.text.toList ++ '/' :: []).splitOn '/').map _) = _
  rw [splitOn_append_slash]
  simp

theorem place_join (cwd : Location) (p : Path) {name : String} (hname : IsFileName name) :
    place cwd (p.join name) = place cwd p ++ [name] := by
  have hpieces : (name.toList.splitOn '/').map String.ofList = [name] := by
    simp [splitOn_of_notMem hname.2.2.2.1]
  have hrelative : name.toList.head? ≠ some '/' := by
    intro hhead
    exact hname.2.2.2.1 (List.mem_of_mem_head? hhead)
  unfold Path.join
  rw [if_neg (by simpa using hrelative)]
  split
  · next hlast =>
    have hempty : p.text = "" := by simpa using hlast
    have hstart : start cwd ⟨name⟩ = cwd := by simp [start, Path.isAbsolute, hrelative]
    have hhere : place cwd p = cwd := by
      simp [place, start, Path.isAbsolute, Path.stepNames_eq, hempty]
    rw [place, hstart, Path.stepNames_eq, hpieces, hhere]
    exact lexicalStep_name hname cwd
  · next hlast =>
    obtain ⟨front, hfront⟩ := List.getLast?_eq_some_iff.mp hlast
    have htext : p.text = String.ofList front ++ "/" := by
      rw [← String.toList_inj, hfront]
      simp
    rw [htext, place_append_slash, hpieces, ← htext]
    exact lexicalStep_name hname _
  · next c hslash hlast =>
    have hne : p.text.toList ≠ [] := by
      intro hnil
      rw [hnil] at hlast
      cases hlast
    rw [place_append_slash, hpieces, place_slash cwd hne]
    exact lexicalStep_name hname _

end FileTree

namespace Host

theorem resolve_proper {h : Host} {p : Path} {l : Location} (hw : h.cwd.Proper)
    (hr : h.resolve p = .ok l) : l.Proper := by
  obtain ⟨hu, rfl⟩ := FileTree.resolve_eq_ok hr
  exact FileTree.place_proper hw (FileTree.unusable?_eq_none hu)

-- The path of a place is its own absolute path, whether or not anything stands there.
theorem absolute_path {l : Location} (hl : l.Proper) (h : Host) : h.absolute l.path = l.path := by
  unfold absolute
  cases hr : h.resolve l.path with
  | error fault => simp
  | ok m =>
    rw [(FileTree.resolve_eq_ok hr).2, FileTree.place_path hl]

theorem resolve_of_changed {h : Host} {l : Location} (hl : l.Proper) {t : Instant}
    (ht : h.changed l.path = .ok t) : h.resolve l.path = .ok l := by
  unfold Host.changed Host.entryAt at ht
  cases hr : h.resolve l.path with
  | error fault =>
    rw [hr] at ht
    cases ht
  | ok m =>
    have hm := (FileTree.resolve_eq_ok hr).2
    rw [hm, FileTree.place_path hl]

theorem changed_eq_of_file {h : Host} {l : Location} (hl : l.Proper) {content : ByteArray}
    {changed t : Instant} (he : h.tree.entry? l = some (.file content changed))
    (ht : h.changed l.path = .ok t) : t = changed := by
  have hr := resolve_of_changed hl ht
  unfold Host.changed Host.entryAt at ht
  rw [hr] at ht
  simp only at ht
  rw [he] at ht
  cases ht
  rfl

theorem read_of_changed {h : Host} {l : Location} (hl : l.Proper) {t : Instant}
    (ht : h.changed l.path = .ok t) : h.read l.path = h.textAt l := by
  unfold Host.read
  rw [resolve_of_changed hl ht]
  rfl

end Host

end TemplateEngine
