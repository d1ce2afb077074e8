import TemplateEngine.Proofs.Files.Directories
import Mathlib.Data.String.Basic

-- The path of a place that was found leads there again. It can be no longer than the path that led
-- there first, as long as that one started at the root.
namespace TemplateEngine

-- The room that names take in a path, each after a slash.
def span : List String → Nat
  | [] => 0
  | n :: names => n.utf8ByteSize + 1 + span names

@[simp] theorem span_nil : span [] = 0 := rfl

@[simp] theorem span_cons (n : String) (names : List String) :
    span (n :: names) = n.utf8ByteSize + 1 + span names := rfl

@[simp] theorem span_append (names others : List String) :
    span (names ++ others) = span names + span others := by
  induction names with
  | nil => rw [List.nil_append, span_nil, Nat.zero_add]
  | cons n names ih =>
    rw [List.cons_append, span_cons, span_cons, ih]
    omega

-- A text of characters of one byte has as many bytes as characters.
theorem utf8ByteSize_ofList_of_narrow {cs : List Char} (hcs : ∀ c ∈ cs, c.utf8Size = 1) :
    (String.ofList cs).utf8ByteSize = cs.length := by
  rw [String.utf8ByteSize_ofList]
  induction cs with
  | nil => rfl
  | cons c cs ih =>
    obtain ⟨hc, hcs⟩ := List.forall_mem_cons.mp hcs
    rw [String.utf8Len_cons, ih hcs, hc, List.length_cons]

namespace Location

variable {l : Location}

theorem text_path_singleton (n : String) : (path [n]).text = "/" ++ n := by
  rw [path, String.intercalate_singleton]

theorem text_path_concat (hl : l ≠ []) (n : String) : (l ++ [n]).path.text = l.path.text ++ "/" ++ n := by
  unfold path
  rw [String.intercalate_append_of_ne_nil hl (by simp), String.intercalate_singleton]
  simp only [String.append_assoc]

theorem utf8ByteSize_path (hl : l ≠ []) : l.path.text.utf8ByteSize = span l := by
  have hslash : "/".utf8ByteSize = 1 := rfl
  induction l using List.reverseRecOn with
  | nil => exact absurd rfl hl
  | append_singleton l n ih =>
    by_cases hnil : l = []
    · subst hnil
      rw [List.nil_append, text_path_singleton, String.utf8ByteSize_append, hslash, span_cons, span_nil]
      omega
    · rw [text_path_concat hnil, String.utf8ByteSize_append, String.utf8ByteSize_append, ih hnil, hslash,
        span_append, span_cons, span_nil]
      omega

theorem nul_not_mem_path (hl : l.Proper) : Char.ofNat 0 ∉ l.path.text.toList := by
  induction l using List.reverseRecOn with
  | nil => decide
  | append_singleton l n ih =>
    have hn : Char.ofNat 0 ∉ n.toList := (hl n (by simp)).2.2.2.2
    by_cases hnil : l = []
    · subst hnil
      rw [List.nil_append, text_path_singleton]
      simpa using hn
    · have hfront := ih fun k hk => hl k (by simp [hk])
      rw [text_path_concat hnil]
      simpa [hn] using hfront

theorem usable_path (hl : l.Proper) (hsize : span l < FileTree.maxPath) :
    FileTree.unusable? l.path = none := by
  refine FileTree.usable_of ?_ (nul_not_mem_path hl) ?_
  · intro hempty
    have habsolute := l.isAbsolute_path
    simp [Path.isAbsolute, hempty] at habsolute
  · by_cases hnil : l = []
    · subst hnil
      decide
    · rwa [utf8ByteSize_path hnil]

end Location

namespace Path

-- After a name that is a slash.
theorem text_join_join {above name : String} (habove : IsFileName above) (hname : IsFileName name)
    (p : Path) : ((p.join above).join name).text = (p.join above).text ++ "/" ++ name := by
  obtain ⟨front, -, hfront⟩ := exists_text_join p
  have hlast : (p.join above).text.toList.getLast? ≠ some '/' := by
    have hne : above.toList ≠ [] := fun hnil => habove.1 (String.toList_inj.mp hnil)
    rw [hfront above habove, String.toList_append, List.getLast?_append_of_ne_nil _ hne]
    exact fun hlast => habove.2.2.2.1 (List.mem_of_getLast? hlast)
  have hrelative : ¬(name.toList.head? == some '/') = true := by
    intro hhead
    exact hname.2.2.2.1 (List.mem_of_mem_head? (by simpa using hhead))
  have hfull : (p.join above).text ≠ "" := join_ne_empty habove p
  generalize p.join above = q at hlast hfull
  unfold join
  rw [if_neg hrelative]
  split
  · next hempty => exact absurd (by simpa using hempty) hfull
  · next hslash => exact absurd hslash hlast
  · rfl

theorem isAbsolute_join_of {p : Path} (hp : p.isAbsolute = true) (below : String) :
    (p.join below).isAbsolute = true := by
  unfold join
  split
  · next hbelow => exact hbelow
  · cases hcs : p.text.toList with
    | nil => simp [isAbsolute, hcs] at hp
    | cons c cs =>
      rw [isAbsolute, hcs] at hp
      split
      · next hlast => simp at hlast
      · simpa [isAbsolute, hcs] using hp
      · simpa [isAbsolute, hcs] using hp

theorem nul_not_mem_join {p : Path} {name : String} (hp : Char.ofNat 0 ∉ p.text.toList)
    (hname : IsFileName name) : Char.ofNat 0 ∉ (p.join name).text.toList := by
  have hnul := hname.2.2.2.2
  rcases join_eq p with ⟨-, hjoin⟩ | ⟨front, hfront | ⟨hfront, -⟩, hjoin⟩
  · rwa [hjoin name hname]
  · rw [hfront] at hp
    rw [hjoin name hname]
    simpa [hnul] using hp
  · rw [hfront] at hp
    rw [hjoin name hname]
    simpa [hnul] using hp

-- A name can be joined to a path until the path is too long.
theorem usable_join_iff {p : Path} {name : String} (hp : Char.ofNat 0 ∉ p.text.toList)
    (hname : IsFileName name) :
    FileTree.unusable? (p.join name) = none ↔ (p.join name).text.utf8ByteSize < FileTree.maxPath :=
  ⟨FileTree.utf8ByteSize_of_usable,
    FileTree.usable_of (join_ne_empty hname p) (nul_not_mem_join hp hname)⟩

theorem utf8ByteSize_slashes (text : String) (n : Nat) :
    (text ++ String.ofList (List.replicate n '/')).utf8ByteSize = text.utf8ByteSize + n := by
  have hnarrow : ∀ c ∈ List.replicate n '/', c.utf8Size = 1 := by
    intro c hc
    rw [List.eq_of_mem_replicate hc]
    rfl
  rw [String.utf8ByteSize_append, utf8ByteSize_ofList_of_narrow hnarrow, List.length_replicate]

theorem usable_slashes {text : String} {n : Nat} (hu : FileTree.unusable? ⟨text⟩ = none)
    (hfull : text ≠ "") (hsize : text.utf8ByteSize + n < FileTree.maxPath) :
    FileTree.unusable? ⟨text ++ String.ofList (List.replicate n '/')⟩ = none := by
  have hnul := FileTree.unusable?_eq_none hu
  refine FileTree.usable_of ?_ ?_ ?_
  · exact fun hempty => hfull (String.append_eq_empty_iff.mp hempty).1
  · rw [String.toList_append, String.toList_ofList, List.mem_append, not_or]
    exact ⟨hnul, fun hmem => absurd (List.eq_of_mem_replicate hmem) (by decide)⟩
  · rwa [utf8ByteSize_slashes]

theorem parent?_of_directory {p q : Path} (hp : p.directory = q) (hq : q.text ≠ ".") :
    p.parent? = some q := by
  unfold directory at hp
  cases hparent : p.parent? with
  | none =>
    rw [hparent] at hp
    exact absurd (congrArg Path.text hp).symm hq
  | some r =>
    rw [hparent] at hp
    dsimp only at hp
    split at hp
    · exact absurd (congrArg Path.text hp).symm hq
    · rw [hp]

theorem parent?_of_located {p : Path} {name : String} {stop stop' : Nat} {part : PathPart}
    {rest : List (PathPart × Nat)} (hp : p.located.reverse = (.name name, stop) :: (part, stop') :: rest) :
    p.parent? = some ⟨String.ofList (p.text.toList.take stop')⟩ := by
  unfold parent?
  rw [hp]

-- An absolute path is as long as its steps.
theorem utf8ByteSize_of_isAbsolute {p : Path} (hp : p.isAbsolute = true) :
    ∃ names, FileTree.stepNames p = "" :: names ∧ p.text.utf8ByteSize = span names := by
  have hslash := take_one_of_isAbsolute hp
  cases hcs : p.text.toList with
  | nil => simp [hcs] at hslash
  | cons c cs =>
    obtain rfl : c = '/' := by simpa [hcs] using hslash
    have hsteps : FileTree.stepNames p = "" :: (cs.splitOn '/').map String.ofList := by
      rw [stepNames_eq, hcs, List.splitOn_cons_eq_if_modifyHead]
      simp
    have htext : p.text = (Location.path ((cs.splitOn '/').map String.ofList)).text := by
      rw [← String.toList_inj, hcs, Location.toList_path, List.map_map]
      have hjoined : ['/'].intercalate (cs.splitOn '/') = cs := List.intercalate_splitOn '/'
      simp [Function.comp_def, hjoined]
    refine ⟨_, hsteps, ?_⟩
    rw [htext]
    exact Location.utf8ByteSize_path (by simp)

end Path

namespace Location

-- A name below the path of a place is the path of the place below it.
theorem join_path {l : Location} (hl : l.Proper) {n : String} (hn : IsFileName n) :
    l.path.join n = (l ++ [n]).path := by
  induction l using List.reverseRecOn generalizing n with
  | nil =>
    have hrelative : ¬(n.toList.head? == some '/') = true := by
      intro hhead
      exact hn.2.2.2.1 (List.mem_of_mem_head? (by simpa using hhead))
    unfold Path.join
    rw [if_neg hrelative]
    rfl
  | append_singleton front m ih =>
    have hm : IsFileName m := hl m (by simp)
    have hfront := ih (fun k hk => hl k (by simp [hk])) hm
    have htext := Path.text_join_join hm hn (path front)
    rw [hfront, ← text_path_concat (by simp)] at htext
    exact congrArg Path.mk htext

theorem parent?_path_concat {l : Location} (hl : l.Proper) {n : String} (hn : IsFileName n) :
    (l ++ [n]).path.parent? = some l.path := by
  rcases List.eq_nil_or_concat l with rfl | ⟨front, m, rfl⟩
  · have htext : path ([] ++ [n]) = ⟨"" ++ "/" ++ n⟩ := by
      rw [String.empty_append]
      exact congrArg Path.mk (text_path_singleton n)
    have habsolute := isAbsolute_path ([] ++ [n])
    have hlocated := Path.located_append hn ""
    rw [← htext, if_pos habsolute] at hlocated
    rw [Path.parent?_of_located hlocated, Path.take_one_of_isAbsolute habsolute]
    rfl
  · rw [List.concat_eq_append] at hl ⊢
    have hfront : Proper front := fun k hk => hl k (by simp [hk])
    have hm : IsFileName m := hl m (by simp)
    have hdirectory : (path (front ++ [m] ++ [n])).directory = path (front ++ [m]) := by
      rw [← join_path hl hn, ← join_path hfront hm]
      exact Path.directory_join_join hm hn _
    refine Path.parent?_of_directory hdirectory fun hdot => ?_
    have habsolute := isAbsolute_path (front ++ [m])
    simp [Path.isAbsolute, hdot] at habsolute

theorem isAbsolute_parent? {l : Location} (hl : l.Proper) {q : Path} (hq : l.path.parent? = some q) :
    q.isAbsolute = true := by
  rcases List.eq_nil_or_concat l with rfl | ⟨front, m, rfl⟩
  · cases hq
  · have hparent : (path (front ++ [m])).parent? = some (path front) :=
      parent?_path_concat (fun n hn => hl n (by simp [hn])) (hl m (by simp))
    rw [List.concat_eq_append, hparent] at hq
    cases hq
    exact isAbsolute_path front

end Location

namespace FileTree

variable {t : FileTree} {l m : Location} {names : List String}

theorem span_lexicalStep (l : Location) (name : String) :
    span (lexicalStep l name) ≤ span l + (name.utf8ByteSize + 1) := by
  have hparent : span l.parent ≤ span l := by
    induction l using List.reverseRecOn with
    | nil => simp [Location.parent]
    | append_singleton l n _ => simp [Location.parent]
  unfold lexicalStep
  split
  · omega
  · split
    · omega
    · simp

theorem mem_lexicalStep {n name : String} (hn : n ∈ lexicalStep l name) :
    n ∈ l ∨ n = name ∧ name ∉ ["", ".", ".."] := by
  unfold lexicalStep at hn
  split at hn
  · exact .inl hn
  · next hstay =>
    split at hn
    · exact .inl (List.dropLast_subset l hn)
    · next hup =>
      rw [List.mem_append, List.mem_singleton] at hn
      refine hn.imp_right fun heq => ⟨heq, ?_⟩
      simpa [hup] using hstay

-- Where a walk leads there is no name that was not on it, nor room taken that names on it did not take.
theorem walk_shortens (hw : t.walk l names = .ok m) (hl : ∀ n ∈ l, n.utf8ByteSize ≤ maxName) :
    (∀ n ∈ m, n.utf8ByteSize ≤ maxName) ∧ span m ≤ span l + span names := by
  induction names generalizing l with
  | nil =>
    cases hw
    exact ⟨hl, by simp⟩
  | cons name names ih =>
    obtain ⟨k, hs, hw⟩ := walk_cons_eq_ok hw
    obtain ⟨-, rfl, hname⟩ := step_eq_ok_iff.mp hs
    have hk : ∀ n ∈ lexicalStep l name, n.utf8ByteSize ≤ maxName := by
      intro n hn
      rcases mem_lexicalStep hn with hn | ⟨rfl, hdots⟩
      · exact hl n hn
      · exact (hname.resolve_left hdots).1
    obtain ⟨hnames, hspan⟩ := ih hw hk
    have hstep := span_lexicalStep l name
    rw [span_cons]
    exact ⟨hnames, by omega⟩

-- The names of a place where something stands lead there.
theorem Valid.walk_names (hv : t.Valid) {e : Entry} (names : List String)
    (he : t.entry? (l ++ names) = some e) (hnames : ∀ n ∈ names, n.utf8ByteSize ≤ maxName) :
    t.walk l names = .ok (l ++ names) := by
  induction names generalizing l with
  | nil =>
    rw [List.append_nil]
    rfl
  | cons name names ih =>
    have hproper : IsFileName name := hv.proper _ _ he name (by simp)
    have hdir : t.isDirectoryAt l = true := hv.isDirectoryAt_of_prefix he (List.prefix_append _ _) (by simp)
    have hsplit : l ++ name :: names = l ++ [name] ++ names := by simp
    rw [hsplit] at he ⊢
    have hnext : (t.entry? (l ++ [name])).isSome = true := by
      by_cases hlast : names = []
      · simpa [hlast] using congrArg Option.isSome he
      · have hbelow : l ++ [name] ≠ l ++ [name] ++ names := by simpa using hlast
        have hdir' := hv.isDirectoryAt_of_prefix he (List.prefix_append _ _) hbelow
        obtain hnil | ⟨changed, hentry⟩ := isDirectoryAt_iff.mp hdir'
        · simp at hnil
        · simp [hentry]
    have hstep : t.step l name = .ok (l ++ [name]) := by
      rw [step_eq_ok_iff, lexicalStep_name hproper]
      exact ⟨hdir, rfl, .inr ⟨hnames name (by simp), hnext⟩⟩
    rw [walk_cons, hstep]
    exact ih he fun n hn => hnames n (by simp [hn])

end FileTree

theorem Host.resolve_resolved {h : Host} {p : Path} {l : Location} {e : Entry} (hv : h.Valid)
    (hp : p.isAbsolute = true) (hr : h.resolve p = .ok l) (he : h.tree.entry? l = some e) :
    h.resolve l.path = .ok l := by
  obtain ⟨hu, -⟩ := FileTree.resolve_eq_ok hr
  obtain ⟨names, hsteps, hsize⟩ := Path.utf8ByteSize_of_isAbsolute hp
  have hproper := hv.tree.proper l e he
  have hstart : FileTree.start h.cwd p = [] := by simp [FileTree.start, hp]
  unfold resolve FileTree.resolve at hr ⊢
  rw [hu, hstart, hsteps] at hr
  obtain ⟨k, hs, hw⟩ := FileTree.walk_cons_eq_ok hr
  obtain rfl : k = [] := (FileTree.step_eq_ok_iff.mp hs).2.1
  obtain ⟨hnames, hspan⟩ := FileTree.walk_shortens hw (by simp)
  have husable : span l < FileTree.maxPath := by
    have hlimit := FileTree.utf8ByteSize_of_usable hu
    rw [span_nil] at hspan
    omega
  have hroot : FileTree.start h.cwd l.path = [] := by simp [FileTree.start]
  rw [Location.usable_path hproper husable, hroot, FileTree.stepNames_path hproper]
  by_cases hnil : l = []
  · subst hnil
    exact FileTree.walk_stays rfl (by decide)
  · rw [if_neg hnil, FileTree.walk_cons]
    exact hv.tree.walk_names l he hnames

end TemplateEngine
