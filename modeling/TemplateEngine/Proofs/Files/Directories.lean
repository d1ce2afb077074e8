import TemplateEngine.Proofs.Files.Walks

-- Names joined to the path of a directory: the new path leads into the directory, and the directory
-- that it names is the same one, even where its text is shorter.
namespace TemplateEngine

namespace FileTree

theorem utf8ByteSize_of_usable {p : Path} (hp : unusable? p = none) : p.text.utf8ByteSize < maxPath := by
  unfold unusable? at hp
  split at hp
  · cases hp
  split at hp
  · cases hp
  split at hp
  · cases hp
  · omega

theorem usable_of {p : Path} (hfull : p.text ≠ "") (hnul : Char.ofNat 0 ∉ p.text.toList)
    (hsize : p.text.utf8ByteSize < maxPath) : unusable? p = none := by
  have hempty : p.text.isEmpty = false := by
    rw [Bool.eq_false_iff]
    exact fun hempty => hfull (String.isEmpty_iff.mp hempty)
  have hcontains : p.text.toList.contains (Char.ofNat 0) = false := by
    rw [Bool.eq_false_iff]
    exact fun hmem => hnul (by simpa using hmem)
  unfold unusable?
  rw [hempty, hcontains, if_neg Bool.false_ne_true, if_neg Bool.false_ne_true, if_neg (by omega)]

end FileTree

namespace Path

theorem pieces_append_slash (position : Nat) (piece cs ds : List Char) :
    pieces position piece (cs ++ '/' :: ds) =
      pieces position piece cs ++ pieces (position + cs.length + 1) [] ds := by
  induction cs generalizing position piece with
  | nil => simp [pieces]
  | cons c cs ih =>
    by_cases hc : c = '/'
    · subst hc
      simp only [List.cons_append, pieces, if_true, ih, List.length_cons]
      congr 3
      omega
    · simp only [List.cons_append, pieces, hc, if_false, ih, List.length_cons]
      congr 2
      omega

theorem pieces_of_notMem (position : Nat) (piece : List Char) {cs : List Char} (hcs : '/' ∉ cs) :
    pieces position piece cs = [(piece.reverse ++ cs, position + cs.length)] := by
  induction cs generalizing position piece with
  | nil => simp [pieces]
  | cons c cs ih =>
    simp only [List.mem_cons, not_or] at hcs
    simp only [pieces, Ne.symm hcs.1, if_false, ih _ _ hcs.2, List.length_cons, List.reverse_cons,
      List.append_assoc, List.singleton_append]
    congr 2
    omega

-- The text up to the end of a piece consists of the pieces up to that one.
theorem splitOn_take {position : Nat} {piece cs : List Char} (hpiece : '/' ∉ piece)
    {front back : List (List Char × Nat)} {x : List Char × Nat}
    (hpieces : pieces position piece cs = front ++ x :: back) :
    position ≤ x.2 ∧ x.2 ≤ position + cs.length ∧
      (piece.reverse ++ cs.take (x.2 - position)).splitOn '/' = (front ++ [x]).map (·.1) := by
  have hpiece' : '/' ∉ piece.reverse := by simpa using hpiece
  induction cs generalizing position piece front with
  | nil =>
    obtain ⟨rfl, heq⟩ := List.append_eq_singleton_iff.mp hpieces.symm |>.resolve_right (by simp)
    obtain ⟨rfl, -⟩ := List.cons.inj heq
    simp [List.splitOn_eq_singleton hpiece']
  | cons c cs ih =>
    by_cases hc : c = '/'
    · subst hc
      simp only [pieces, if_true] at hpieces
      cases front with
      | nil =>
        obtain ⟨rfl, -⟩ := List.cons.inj hpieces
        simp [List.splitOn_eq_singleton hpiece']
      | cons first front =>
        obtain ⟨rfl, hrest⟩ := List.cons.inj hpieces
        obtain ⟨hle, hlength, hsplit⟩ := ih (by simp) hrest (by simp)
        have htake : ('/' :: cs).take (x.2 - position) = '/' :: cs.take (x.2 - (position + 1)) := by
          rw [show x.2 - position = x.2 - (position + 1) + 1 by omega, List.take_succ_cons]
        refine ⟨by omega, by rw [List.length_cons]; omega, ?_⟩
        rw [htake, List.splitOn_append_cons_self_of_not_mem hpiece', List.cons_append, List.map_cons,
          ← hsplit]
        rfl
    · simp only [pieces, hc, if_false] at hpieces
      have hmore : '/' ∉ c :: piece := by simp [hpiece, Ne.symm hc]
      obtain ⟨hle, hlength, hsplit⟩ := ih hmore hpieces (by simpa [and_comm] using hmore)
      have htake : (c :: cs).take (x.2 - position) = c :: cs.take (x.2 - (position + 1)) := by
        rw [show x.2 - position = x.2 - (position + 1) + 1 by omega, List.take_succ_cons]
      refine ⟨by omega, by rw [List.length_cons]; omega, ?_⟩
      rw [htake, ← hsplit]
      simp

-- The parts that the pieces of a path stand for, without a root.
def bodies : List (List Char × Nat) → List (PathPart × Nat)
  | [] => []
  | front :: others => (partOf? true front).toList ++ others.filterMap (partOf? false)

theorem located_eq (p : Path) : p.located =
    (if p.isAbsolute then [(.root, 1)] else []) ++ bodies (pieces 0 [] p.text.toList) := by
  unfold located
  cases pieces 0 [] p.text.toList <;> cases p.isAbsolute <;> rfl

theorem pieces_ne_nil (position : Nat) (piece cs : List Char) : pieces position piece cs ≠ [] := by
  cases cs with
  | nil => simp [pieces]
  | cons c cs =>
    unfold pieces
    split
    · simp
    · exact pieces_ne_nil _ _ cs

theorem bodies_concat {all : List (List Char × Nat)} (hall : all ≠ []) (x : List Char × Nat) :
    bodies (all ++ [x]) = bodies all ++ (partOf? false x).toList := by
  cases all with
  | nil => exact absurd rfl hall
  | cons front others => cases hx : partOf? false x <;> simp [bodies, hx]

theorem partOf?_eq_none {x : List Char × Nat} (hx : partOf? false x = none) :
    String.ofList x.1 ∈ ["", "."] := by
  unfold partOf? at hx
  by_cases he : x.1 = []
  · simp [he]
  by_cases hh : x.1 = ['.']
  · rw [hh]
    decide
  by_cases hu : x.1 = ['.', '.']
  · simp [hu] at hx
  · simp [he, hh, hu] at hx

theorem partOf?_eq_some {first : Bool} {x : List Char × Nat} {part : PathPart × Nat}
    (hx : partOf? first x = some part) : x.1 ≠ [] ∧ part.2 = x.2 := by
  unfold partOf? at hx
  by_cases he : x.1 = []
  · simp [he] at hx
  refine ⟨he, ?_⟩
  rw [if_neg he] at hx
  split at hx
  · split at hx <;> cases hx
    rfl
  · split at hx <;> cases hx <;> rfl

-- The last part of a path comes from a piece, and the pieces after it count for nothing.
theorem exists_of_getLast?_bodies {all : List (List Char × Nat)} {part : PathPart × Nat}
    (hlast : (bodies all).getLast? = some part) :
    ∃ front x back, all = front ++ x :: back ∧ x.1 ≠ [] ∧ part.2 = x.2 ∧
      ∀ y ∈ back, String.ofList y.1 ∈ ["", "."] := by
  induction all using List.reverseRecOn with
  | nil => cases hlast
  | append_singleton all x ih =>
    by_cases hall : all = []
    · subst hall
      cases hx : partOf? true x with
      | none => simp [bodies, hx] at hlast
      | some found =>
        obtain rfl : found = part := by simpa [bodies, hx] using hlast
        obtain ⟨hne, hstop⟩ := partOf?_eq_some hx
        exact ⟨[], x, [], rfl, hne, hstop, by simp⟩
    · rw [bodies_concat hall] at hlast
      cases hx : partOf? false x with
      | none =>
        rw [hx, Option.toList_none, List.append_nil] at hlast
        obtain ⟨front, y, back, rfl, hne, hstop, hback⟩ := ih hlast
        refine ⟨front, y, back ++ [x], by simp, hne, hstop, fun z hz => ?_⟩
        rcases List.mem_append.mp hz with hz | hz
        · exact hback z hz
        · rw [List.mem_singleton.mp hz]
          exact partOf?_eq_none hx
      | some found =>
        obtain rfl : found = part := by simpa [hx] using hlast
        obtain ⟨hne, hstop⟩ := partOf?_eq_some hx
        exact ⟨all, x, [], rfl, hne, hstop, by simp⟩

-- Names below a path stand after a slash, unless the path is empty.
theorem join_eq (p : Path) :
    (p.text = "" ∧ ∀ name, IsFileName name → p.join name = ⟨name⟩) ∨
      ∃ front, (p.text = front ++ "/" ∨ p.text = front ∧ front ≠ "") ∧
        ∀ name, IsFileName name → p.join name = ⟨front ++ "/" ++ name⟩ := by
  have hrelative : ∀ name, IsFileName name → ¬(name.toList.head? == some '/') = true := by
    intro name hname hhead
    exact hname.2.2.2.1 (List.mem_of_mem_head? (by simpa using hhead))
  unfold join
  cases hlast : p.text.toList.getLast? with
  | none => exact .inl ⟨by simpa using hlast, fun name hname => if_neg (hrelative name hname)⟩
  | some c =>
    right
    by_cases hc : c = '/'
    · subst hc
      obtain ⟨front, hfront⟩ := List.getLast?_eq_some_iff.mp hlast
      have htext : p.text = String.ofList front ++ "/" := by
        rw [← String.toList_inj, hfront]
        simp
      refine ⟨String.ofList front, .inl htext, fun name hname => ?_⟩
      rw [if_neg (hrelative name hname), htext]
      rfl
    · refine ⟨p.text, .inr ⟨rfl, fun hempty => ?_⟩, fun name hname => ?_⟩
      · rw [hempty] at hlast
        cases hlast
      · rw [if_neg (hrelative name hname)]
        split
        · next heq => cases heq
        · next heq => exact absurd (Option.some.inj heq) hc
        · rfl

-- What stands in front of a name that is joined to a path does not depend on the name, and holds
-- the path.
theorem exists_text_join (p : Path) : ∃ front : String, p.text.utf8ByteSize ≤ front.utf8ByteSize ∧
    ∀ name, IsFileName name → (p.join name).text = front ++ name := by
  rcases join_eq p with ⟨hp, hjoin⟩ | ⟨front, hp, hjoin⟩
  · rw [hp]
    exact ⟨"", Nat.le_refl _, fun name hname => by rw [hjoin name hname, String.empty_append]⟩
  · refine ⟨front ++ "/", ?_, fun name hname => by rw [hjoin name hname]⟩
    rcases hp with hp | ⟨hp, -⟩
    · exact Nat.le_of_eq (congrArg String.utf8ByteSize hp)
    · rw [hp, String.utf8ByteSize_append]
      exact Nat.le_add_right _ _

theorem isAbsolute_join {name : String} (hname : IsFileName name) (p : Path) :
    (p.join name).isAbsolute = p.isAbsolute := by
  have hrelative : name.toList.head? ≠ some '/' := by
    intro hhead
    exact hname.2.2.2.1 (List.mem_of_mem_head? hhead)
  rcases join_eq p with ⟨hp, hjoin⟩ | ⟨front, hp | ⟨hp, hne⟩, hjoin⟩
  · simp [hjoin name hname, isAbsolute, hp, hrelative]
  · cases hf : front.toList <;> simp [hjoin name hname, isAbsolute, hp, hf]
  · cases hf : front.toList with
    | nil => exact absurd (String.toList_inj.mp hf) hne
    | cons c cs => simp [hjoin name hname, isAbsolute, hp, hf]

-- The pieces of a path with a name below it.
theorem pieces_join {name : String} (hname : IsFileName name) (front : String) :
    pieces 0 [] (front ++ "/" ++ name).toList =
      pieces 0 [] front.toList ++ [(name.toList, front.toList.length + 1 + name.toList.length)] := by
  rw [String.toList_append, String.toList_append, List.append_assoc]
  change pieces 0 [] (front.toList ++ '/' :: name.toList) = _
  rw [pieces_append_slash, pieces_of_notMem _ _ hname.2.2.2.1]
  simp

theorem stepNames_join (p : Path) :
    ∃ names, (∀ name, IsFileName name → FileTree.stepNames (p.join name) = names ++ [name]) ∧
      (FileTree.stepNames p = names ∨ FileTree.stepNames p = names ++ [""]) := by
  rcases join_eq p with ⟨hp, hjoin⟩ | ⟨front, hp, hjoin⟩
  · refine ⟨[], fun name hname => ?_, .inr ?_⟩
    · simp [hjoin name hname, FileTree.stepNames, pieces_of_notMem _ _ hname.2.2.2.1]
    · simp [FileTree.stepNames, hp, pieces]
  · refine ⟨FileTree.stepNames ⟨front⟩, fun name hname => ?_, ?_⟩
    · rw [hjoin name hname]
      unfold FileTree.stepNames
      rw [pieces_join hname]
      simp
    · rcases hp with hp | ⟨hp, -⟩
      · right
        have hslash := pieces_append_slash 0 [] front.toList []
        simp [FileTree.stepNames, hp, hslash, pieces]
      · exact .inl (by rw [← hp])

theorem prefix_join {name : String} (hname : IsFileName name) (p : Path) :
    p.text.toList <+: (p.join name).text.toList := by
  rcases join_eq p with ⟨hp, -⟩ | ⟨front, hp | ⟨hp, -⟩, hjoin⟩
  · simp [hp]
  · rw [hjoin name hname, hp, String.toList_append, String.toList_append, String.toList_append]
    exact List.prefix_append _ _
  · rw [hjoin name hname, hp, String.toList_append, String.toList_append, List.append_assoc]
    exact List.prefix_append _ _

theorem join_ne_empty {name : String} (hname : IsFileName name) (p : Path) : (p.join name).text ≠ "" := by
  intro hempty
  have hlist := congrArg String.toList hempty
  rcases join_eq p with ⟨-, hjoin⟩ | ⟨front, -, hjoin⟩
  · rw [hjoin name hname] at hempty
    exact hname.1 hempty
  · rw [hjoin name hname, String.toList_append] at hlist
    exact hname.1 (String.toList_inj.mp (List.append_eq_nil_iff.mp hlist).2)

-- Of two names below a path, the shorter can be used where the longer can.
theorem unusable?_join_mono {name other : String} (hname : IsFileName name) (hother : IsFileName other)
    (hle : other.utf8ByteSize ≤ name.utf8ByteSize) {p : Path}
    (hu : FileTree.unusable? (p.join name) = none) : FileTree.unusable? (p.join other) = none := by
  obtain ⟨front, -, htext⟩ := exists_text_join p
  have hnametext := htext name hname
  have hothertext := htext other hother
  have hnul := FileTree.unusable?_eq_none hu
  have hsize := FileTree.utf8ByteSize_of_usable hu
  rw [hnametext] at hnul hsize
  rw [String.utf8ByteSize_append] at hsize
  rw [String.toList_append, List.mem_append, not_or] at hnul
  refine FileTree.usable_of ?_ ?_ ?_
  · rw [hothertext]
    intro hempty
    have hlist := congrArg String.toList hempty
    rw [String.toList_append] at hlist
    exact hother.1 (String.toList_inj.mp (List.append_eq_nil_iff.mp hlist).2)
  · rw [hothertext, String.toList_append, List.mem_append, not_or]
    exact ⟨hnul.1, hother.2.2.2.2⟩
  · rw [hothertext, String.utf8ByteSize_append]
    omega

theorem partOf?_name {name : String} (hname : IsFileName name) (first : Bool) (stop : Nat) :
    partOf? first (name.toList, stop) = some (.name name, stop) := by
  obtain ⟨he, hh, hu, -⟩ := hname
  have hh' : name.toList ≠ ['.'] := fun h => hh (String.toList_inj.mp h)
  have hu' : name.toList ≠ ['.', '.'] := fun h => hu (String.toList_inj.mp h)
  simp [partOf?, he, hh', hu']

-- Whether names lead from a directory to itself.
def Stays (names : List String) : Prop := ∀ n ∈ names, n ∈ ["", "."]

instance (names : List String) : Decidable (Stays names) := inferInstanceAs (Decidable (∀ n ∈ names, _))

theorem bodies_eq_nil {all : List (List Char × Nat)} (hall : bodies all = []) :
    Stays (all.map fun x => String.ofList x.1) := by
  cases all with
  | nil => simp [Stays]
  | cons front others =>
    obtain ⟨hfront, hothers⟩ := List.append_eq_nil_iff.mp hall
    intro n hn
    obtain ⟨x, hx, rfl⟩ := List.mem_map.mp hn
    rcases List.mem_cons.mp hx with rfl | hx
    · have hempty : x.1 = [] := by
        unfold partOf? at hfront
        by_contra hne
        rw [if_neg hne] at hfront
        split at hfront
        · cases hfront
        · split at hfront <;> cases hfront
      simp [hempty]
    · exact partOf?_eq_none (List.filterMap_eq_nil_iff.mp hothers x hx)

-- The path up to a part that is not empty is not empty either.
theorem take_ne_nil {cs : List Char} {before back : List (List Char × Nat)} {x : List Char × Nat}
    (hpieces : pieces 0 [] cs = before ++ x :: back) (hne : x.1 ≠ []) : cs.take x.2 ≠ [] := by
  obtain ⟨-, -, hsplit⟩ := splitOn_take (by simp) hpieces
  intro hempty
  rw [Nat.sub_zero, hempty] at hsplit
  have hmem : x.1 ∈ (before ++ [x]).map (·.1) := List.mem_map_of_mem (by simp)
  rw [← hsplit] at hmem
  exact hne (by simpa using hmem)

-- The steps of the path up to a part are those up to the part's own.
theorem stepNames_take {front : String} {before back : List (List Char × Nat)} {x : List Char × Nat}
    (hpieces : pieces 0 [] front.toList = before ++ x :: back) :
    FileTree.stepNames ⟨String.ofList (front.toList.take x.2)⟩ =
      (before ++ [x]).map fun x => String.ofList x.1 := by
  obtain ⟨-, -, hsplit⟩ := splitOn_take (by simp) hpieces
  rw [List.reverse_nil, List.nil_append, Nat.sub_zero] at hsplit
  rw [stepNames_eq, String.toList_ofList, hsplit, List.map_map]
  rfl

-- The directory of a path is the path up to the part before the last one.
theorem directory_of_located {p : Path} {name : String} {stop : Nat} {part : PathPart × Nat}
    {rest : List (PathPart × Nat)} (hlocated : p.located.reverse = (.name name, stop) :: part :: rest)
    (hne : p.text.toList.take part.2 ≠ []) :
    p.directory = ⟨String.ofList (p.text.toList.take part.2)⟩ := by
  have hfull : (String.ofList (p.text.toList.take part.2)).isEmpty = false := by
    rw [Bool.eq_false_iff]
    intro hempty
    rw [String.isEmpty_iff, ← String.toList_inj, String.toList_ofList] at hempty
    exact hne hempty
  unfold directory parent?
  rw [hlocated]
  dsimp only
  rw [hfull]
  rfl

theorem take_one_of_isAbsolute {p : Path} (habs : p.isAbsolute = true) : p.text.toList.take 1 = ['/'] := by
  unfold isAbsolute at habs
  cases hcs : p.text.toList with
  | nil =>
    rw [hcs] at habs
    cases habs
  | cons c cs =>
    rw [hcs] at habs
    simpa using habs

theorem located_append {name : String} (hname : IsFileName name) (front : String) :
    (⟨front ++ "/" ++ name⟩ : Path).located.reverse =
      (.name name, front.toList.length + 1 + name.toList.length) ::
        ((if (⟨front ++ "/" ++ name⟩ : Path).isAbsolute then [(PathPart.root, 1)] else []) ++
          bodies (pieces 0 [] front.toList)).reverse := by
  rw [located_eq, pieces_join hname, bodies_concat (pieces_ne_nil _ _ _), partOf?_name hname]
  simp

-- The directory of a name below a path is the path up to its last part. If there is none, it is the
-- root or the working directory.
theorem directory_append {name : String} (hname : IsFileName name) (front : String) :
    (Stays (FileTree.stepNames ⟨front⟩) ∧ (⟨front ++ "/" ++ name⟩ : Path).directory =
        ⟨if (⟨front ++ "/" ++ name⟩ : Path).isAbsolute then "/" else "."⟩) ∨
      ∃ before x back, pieces 0 [] front.toList = before ++ x :: back ∧ x.1 ≠ [] ∧
        Stays (back.map fun x => String.ofList x.1) ∧
        (⟨front ++ "/" ++ name⟩ : Path).directory = ⟨String.ofList (front.toList.take x.2)⟩ := by
  have htext : (front ++ "/" ++ name).toList = front.toList ++ '/' :: name.toList := by
    rw [String.toList_append, String.toList_append, List.append_assoc]
    rfl
  have hlocated := located_append hname front
  cases hlast : (bodies (pieces 0 [] front.toList)).getLast? with
  | none =>
    have hnil := List.getLast?_eq_none_iff.mp hlast
    rw [hnil] at hlocated
    refine .inl ⟨bodies_eq_nil hnil, ?_⟩
    cases habs : (⟨front ++ "/" ++ name⟩ : Path).isAbsolute with
    | false =>
      unfold directory parent?
      rw [hlocated, habs]
      rfl
    | true =>
      have hroot : (front ++ "/" ++ name).toList.take 1 = ['/'] := take_one_of_isAbsolute habs
      rw [habs] at hlocated
      have hdirectory := directory_of_located hlocated (by rw [hroot]; simp)
      rw [hroot] at hdirectory
      exact hdirectory
  | some part =>
    obtain ⟨before, x, back, hpieces, hne, hstop, hback⟩ := exists_of_getLast?_bodies hlast
    obtain ⟨-, hle, -⟩ := splitOn_take (by simp) hpieces
    obtain ⟨others, hothers⟩ := List.getLast?_eq_some_iff.mp hlast
    have htake : (front ++ "/" ++ name).toList.take part.2 = front.toList.take x.2 := by
      rw [htext, hstop, List.take_append_of_le_length (by simpa using hle)]
    refine .inr ⟨before, x, back, hpieces, hne, ?_, ?_⟩
    · intro n hn
      obtain ⟨y, hy, rfl⟩ := List.mem_map.mp hn
      exact hback y hy
    · rw [hothers, ← List.append_assoc, List.reverse_append] at hlocated
      have hdirectory := directory_of_located hlocated (by rw [htake]; exact take_ne_nil hpieces hne)
      rw [htake] at hdirectory
      exact hdirectory

theorem directory_name {name : String} (hname : IsFileName name) : (⟨name⟩ : Path).directory = ⟨"."⟩ := by
  have hrelative : (⟨name⟩ : Path).isAbsolute = false := by
    rw [Bool.eq_false_iff]
    intro habs
    have hslash := take_one_of_isAbsolute habs
    exact hname.2.2.2.1 (List.mem_of_mem_take (hslash ▸ List.mem_singleton_self _))
  have hlocated : (⟨name⟩ : Path).located = [(.name name, name.toList.length)] := by
    rw [located_eq, hrelative, pieces_of_notMem _ _ hname.2.2.2.1]
    simp [bodies, partOf?_name hname]
  unfold directory parent?
  rw [hlocated]
  rfl

-- The directory of a name below a path leads where the path leads, with fewer steps.
theorem directory_join {name : String} (hname : IsFileName name) (p : Path) {names : List String}
    (hnames : FileTree.stepNames (p.join name) = names ++ [name]) :
    Stays names ∧ (p.join name).directory = ⟨if p.isAbsolute then "/" else "."⟩ ∨
      ∃ back, names = FileTree.stepNames (p.join name).directory ++ back ∧ Stays back ∧
        (p.join name).directory.isAbsolute = p.isAbsolute ∧ (p.join name).directory.text ≠ "" ∧
        (p.join name).directory.text.toList <+: p.text.toList := by
  have habs := isAbsolute_join hname p
  rcases join_eq p with ⟨hp, hjoin⟩ | ⟨front, hp, hjoin⟩ <;> replace hjoin := hjoin name hname
  · left
    rw [hjoin] at hnames
    have hone : FileTree.stepNames ⟨name⟩ = [name] := by
      simp [FileTree.stepNames, pieces_of_notMem _ _ hname.2.2.2.1]
    have hrelative : p.isAbsolute = false := by simp [isAbsolute, hp]
    refine ⟨?_, ?_⟩
    · rw [hone] at hnames
      obtain rfl : names = [] := by
        cases names with
        | nil => rfl
        | cons first others => simp at hnames
      simp [Stays]
    · rw [hjoin, hrelative]
      exact directory_name hname
  · have hprefix : front.toList <+: p.text.toList := by
      rcases hp with hp | ⟨hp, -⟩
      · rw [hp, String.toList_append]
        exact List.prefix_append _ _
      · exact hp ▸ List.prefix_refl _
    obtain rfl : names = FileTree.stepNames ⟨front⟩ := by
      rw [hjoin, FileTree.stepNames, pieces_join hname, List.map_append] at hnames
      simpa [FileTree.stepNames] using hnames.symm
    rcases directory_append hname front with ⟨hstays, hdirectory⟩ | ⟨before, x, back, hpieces, hne, hback, hdirectory⟩
    · left
      rw [hjoin, hdirectory, ← hjoin, habs]
      exact ⟨hstays, rfl⟩
    · right
      have hfull : front.toList.take x.2 ≠ [] := take_ne_nil hpieces hne
      rw [hjoin] at habs ⊢
      rw [hdirectory]
      refine ⟨back.map fun x => String.ofList x.1, ?_, hback, ?_, ?_, ?_⟩
      · rw [stepNames_take hpieces, FileTree.stepNames, hpieces]
        simp
      · rw [← habs]
        cases hf : front.toList with
        | nil => simp [hf] at hfull
        | cons c cs =>
          cases hx : x.2 with
          | zero => simp [hx] at hfull
          | succ stop => simp [isAbsolute, hf]
      · intro hempty
        rw [← String.toList_inj, String.toList_ofList] at hempty
        exact hfull hempty
      · rw [String.toList_ofList]
        exact (List.take_prefix _ _).trans hprefix

theorem pieces_join_last {name : String} (hname : IsFileName name) (p : Path) :
    ∃ before, pieces 0 [] (p.join name).text.toList =
      before ++ [(name.toList, (p.join name).text.toList.length)] := by
  rcases join_eq p with ⟨-, hjoin⟩ | ⟨front, -, hjoin⟩ <;> replace hjoin := hjoin name hname
  · exact ⟨[], by rw [hjoin, pieces_of_notMem _ _ hname.2.2.2.1]; simp⟩
  · refine ⟨pieces 0 [] front.toList, ?_⟩
    rw [hjoin, pieces_join hname]
    simp only [String.toList_append, List.length_append]
    rfl

-- Where the path ends in a name itself, that directory is the path.
theorem directory_join_join {above name : String} (habove : IsFileName above) (hname : IsFileName name)
    (p : Path) : ((p.join above).join name).directory = p.join above := by
  obtain ⟨before, hlast⟩ := pieces_join_last habove p
  have hfull : above.toList ≠ [] := fun hnil => habove.1 (String.toList_inj.mp hnil)
  have hslash : ∀ front : String, (p.join above).text ≠ front ++ "/" := by
    intro front hfront
    have hempty : pieces 0 [] (front ++ "/").toList =
        pieces 0 [] front.toList ++ [([], 0 + front.toList.length + 1)] := by
      rw [String.toList_append]
      exact pieces_append_slash 0 [] front.toList []
    rw [hfront, hempty] at hlast
    have hpiece := List.singleton_inj.mp (List.append_inj' hlast rfl).2
    exact hfull (Prod.mk.inj hpiece).1.symm
  have hname' : ∀ {names : List (List Char × Nat)}, Stays (names.map fun x => String.ofList x.1) →
      (above.toList, (p.join above).text.toList.length) ∉ names := by
    intro names hnames hmem
    have hstays := hnames _ (List.mem_map_of_mem hmem)
    rw [String.ofList_toList] at hstays
    simp only [List.mem_cons, List.not_mem_nil, or_false] at hstays
    exact hstays.elim habove.1 habove.2.1
  rcases join_eq (p.join above) with ⟨hempty, -⟩ | ⟨front, hfront | ⟨hfront, -⟩, hjoin⟩
  · have hone : pieces 0 [] "".toList = [] ++ [([], 0)] := rfl
    rw [hempty, hone] at hlast
    have hpiece := List.singleton_inj.mp (List.append_inj' hlast rfl).2
    exact absurd (Prod.mk.inj hpiece).1.symm hfull
  · exact absurd hfront (hslash front)
  · rw [hjoin name hname]
    rcases directory_append hname front with ⟨hstays, -⟩ | ⟨others, x, back, hpieces, -, hback, hdirectory⟩
    · refine absurd ?_ (hname' hstays)
      rw [← hfront, hlast]
      exact List.mem_append_right _ (List.mem_singleton_self _)
    · rw [← hfront, hlast] at hpieces
      rcases List.eq_nil_or_concat back with rfl | ⟨between, y, rfl⟩
      · have hx := List.singleton_inj.mp (List.append_inj' hpieces rfl).2
        rw [hdirectory, ← hx, hfront, List.take_length, String.ofList_toList, ← hfront]
      · rw [List.concat_eq_append, ← List.cons_append, ← List.append_assoc] at hpieces
        have hy := List.singleton_inj.mp (List.append_inj' hpieces rfl).2
        exact absurd (by simp [hy]) (hname' hback)

end Path

namespace FileTree

variable {t : FileTree} {l m : Location}

theorem walk_stays {names : List String} (hl : t.isDirectoryAt l = true) (hnames : Path.Stays names) :
    t.walk l names = .ok l := by
  induction names with
  | nil => rfl
  | cons name names ih =>
    obtain ⟨hname, hnames⟩ := List.forall_mem_cons.mp hnames
    have hstep : t.step l name = .ok l := by
      simp only [List.mem_cons, List.not_mem_nil, or_false] at hname
      rcases hname with rfl | rfl <;> simp [step, hl]
    rw [walk_cons, hstep]
    exact ih hnames

theorem foldl_stays {names : List String} (hnames : Path.Stays names) :
    names.foldl lexicalStep l = l := by
  induction names with
  | nil => rfl
  | cons name names ih =>
    obtain ⟨hname, hothers⟩ := List.forall_mem_cons.mp hnames
    simp only [List.mem_cons, List.not_mem_nil, or_false] at hname
    rcases hname with rfl | rfl <;> exact ih hothers

theorem start_join {name : String} (hname : IsFileName name) (cwd : Location) (p : Path) :
    start cwd (p.join name) = start cwd p := by
  unfold start
  rw [Path.isAbsolute_join hname]

end FileTree

namespace Host

variable {h : Host} {p : Path} {l : Location} {name : String}

-- The steps of a path lead to a directory, be the path empty or too long.
structure Opens (h : Host) (p : Path) (l : Location) : Prop where
  walk : h.tree.walk (FileTree.start h.cwd p) (FileTree.stepNames p) = .ok l
  directory : h.tree.isDirectoryAt l = true
  shown : ∀ e, h.tree.entry? l = some e → e.isFile = false

theorem Opens.walk_names (ho : h.Opens p l) {names : List String}
    (hnames : FileTree.stepNames p = names ∨ FileTree.stepNames p = names ++ [""]) :
    h.tree.walk (FileTree.start h.cwd p) names = .ok l := by
  have hwalk := ho.walk
  rcases hnames with hnames | hnames
  · rwa [hnames] at hwalk
  · rw [hnames, FileTree.walk_append] at hwalk
    obtain ⟨m, hm, hlast⟩ := bind_eq_ok hwalk
    rw [hm, FileTree.walk_eq_ok hlast]
    rfl

-- Slashes at the end of a path lead no further.
theorem Opens.slashes {text : String} (ho : h.Opens ⟨text⟩ l) (hfull : text ≠ "") (n : Nat) :
    h.Opens ⟨text ++ String.ofList (List.replicate n '/')⟩ l := by
  refine ⟨?_, ho.directory, ho.shown⟩
  have hstart : ∀ back : String, FileTree.start h.cwd ⟨text ++ back⟩ = FileTree.start h.cwd ⟨text⟩ := by
    intro back
    cases hcs : text.toList with
    | nil => exact absurd (String.toList_inj.mp hcs) hfull
    | cons c cs => simp [FileTree.start, Path.isAbsolute, hcs]
  rw [hstart]
  induction n with
  | zero =>
    rw [List.replicate_zero, String.ofList_nil, String.append_empty]
    exact ho.walk
  | succ n ih =>
    have htext : text ++ String.ofList (List.replicate (n + 1) '/') =
        text ++ String.ofList (List.replicate n '/') ++ "/" := by
      rw [← String.toList_inj]
      simp [List.replicate_succ']
    rw [htext, FileTree.stepNames_slash, FileTree.walk_append, ih]
    exact FileTree.walk_stays ho.directory (by decide)

-- A path joined to that of a directory leads one step further.
theorem Opens.resolve_join (ho : h.Opens p l) (hname : IsFileName name)
    (hu : FileTree.unusable? (p.join name) = none) : h.resolve (p.join name) = h.tree.step l name := by
  obtain ⟨names, hjoin, hnames⟩ := Path.stepNames_join p
  unfold resolve FileTree.resolve
  rw [hu, hjoin name hname, FileTree.start_join hname, FileTree.walk_append, ho.walk_names hnames]
  change FileTree.walk h.tree l [name] = _
  rw [FileTree.walk_cons]
  cases h.tree.step l name <;> rfl

theorem Opens.directoryFor_join (ho : h.Opens p l) (hname : IsFileName name)
    (hu : FileTree.unusable? (p.join name) = none) :
    h.tree.directoryFor h.cwd (p.join name) (FileTree.stepNames (p.join name)) = .ok l := by
  obtain ⟨names, hjoin, hnames⟩ := Path.stepNames_join p
  unfold FileTree.directoryFor
  rw [hu, hjoin name hname, List.dropLast_concat, FileTree.start_join hname]
  dsimp only
  rw [ho.walk_names hnames]
  change (if h.tree.isDirectoryAt l then pure l else throw FileFault.notDirectory) = Except.ok l
  rw [ho.directory]
  rfl

theorem Opens.target_join (ho : h.Opens p l) (hname : IsFileName name)
    (hu : FileTree.unusable? (p.join name) = none) :
    h.tree.target h.cwd (p.join name) = FileTree.childOf l name := by
  obtain ⟨names, hjoin, -⟩ := Path.stepNames_join p
  unfold FileTree.target
  dsimp only
  rw [ho.directoryFor_join hname hu, hjoin name hname, List.getLast?_concat]
  change (if name = "" then _ else if (name = "." || name = "..") = true then _
    else FileTree.childOf l name) = _
  simp [hname.1, hname.2.1, hname.2.2.1]

theorem Opens.vacancy_join (ho : h.Opens p l) (hname : IsFileName name)
    (hu : FileTree.unusable? (p.join name) = none) :
    h.tree.vacancy h.cwd (p.join name) = do
      let m ← FileTree.childOf l name
      if (h.tree.entry? m).isSome then throw .occupied else return m := by
  obtain ⟨names, hjoin, -⟩ := Path.stepNames_join p
  have hfull : ((FileTree.stepNames (p.join name)).reverse.dropWhile String.isEmpty).reverse =
      FileTree.stepNames (p.join name) := by
    have hne : name.isEmpty = false := by
      rw [Bool.eq_false_iff]
      exact fun hempty => hname.1 (String.isEmpty_iff.mp hempty)
    simp [hjoin name hname, hne]
  unfold FileTree.vacancy
  dsimp only
  rw [hfull, ho.directoryFor_join hname hu, hjoin name hname, List.getLast?_concat]
  change (if (name = "." || name = "..") = true then _ else _) = _
  simp [hname.2.1, hname.2.2.1]

-- The directory of a path joined to that of a directory is that directory.
theorem Opens.directory_join (ho : h.Opens p l) (hname : IsFileName name) :
    h.Opens (p.join name).directory l := by
  obtain ⟨names, hjoin, hnames⟩ := Path.stepNames_join p
  have hwalk := ho.walk_names hnames
  have hdirectory := Path.directory_join hname p (hjoin name hname)
  generalize (p.join name).directory = q at hdirectory
  refine ⟨?_, ho.directory, ho.shown⟩
  rcases hdirectory with ⟨hstays, rfl⟩ | ⟨back, rfl, hstays, habs, -⟩
  · have hl := FileTree.walk_eq_ok hwalk
    rw [FileTree.foldl_stays hstays] at hl
    have hdots : Path.Stays (FileTree.stepNames ⟨if p.isAbsolute then "/" else "."⟩) := by
      unfold Path.Stays
      cases p.isAbsolute <;> decide
    have hstart : FileTree.start h.cwd ⟨if p.isAbsolute then "/" else "."⟩ = l := by
      rw [hl]
      unfold FileTree.start
      cases p.isAbsolute <;> rfl
    rw [hstart]
    exact FileTree.walk_stays ho.directory hdots
  · rw [FileTree.walk_append] at hwalk
    obtain ⟨m, hm, hlast⟩ := bind_eq_ok hwalk
    have hl := FileTree.walk_eq_ok hlast
    rw [FileTree.foldl_stays hstays] at hl
    have hstart : FileTree.start h.cwd q = FileTree.start h.cwd p := by
      unfold FileTree.start
      rw [habs]
    rw [hstart, hl]
    exact hm

-- Where one name below a path leads somewhere, the way to all others is open too.
theorem resolve_sibling {other : String} {m : Location} (hname : IsFileName name)
    (hother : IsFileName other) (hr : h.resolve (p.join name) = .ok m)
    (hu : FileTree.unusable? (p.join other) = none) :
    h.tree.isDirectoryAt (FileTree.place h.cwd p) = true ∧
      h.resolve (p.join other) = h.tree.step (FileTree.place h.cwd p) other := by
  obtain ⟨names, hjoin, hnames⟩ := Path.stepNames_join p
  obtain ⟨hu', -⟩ := FileTree.resolve_eq_ok hr
  unfold resolve FileTree.resolve at hr ⊢
  rw [hu', hjoin name hname, FileTree.start_join hname, FileTree.walk_append] at hr
  obtain ⟨k, hwalk, hlast⟩ := bind_eq_ok hr
  obtain ⟨_, hstep, -⟩ := FileTree.walk_cons_eq_ok hlast
  have hk : k = FileTree.place h.cwd p := by
    unfold FileTree.place
    rw [FileTree.walk_eq_ok hwalk]
    rcases hnames with hnames | hnames
    · rw [hnames]
    · rw [hnames, List.foldl_append]
      rfl
  refine ⟨hk ▸ FileTree.isDirectoryAt_of_step hstep, ?_⟩
  rw [hu, hjoin other hother, FileTree.start_join hother, FileTree.walk_append, hwalk, ← hk]
  change FileTree.walk h.tree k [other] = _
  rw [FileTree.walk_cons]
  cases h.tree.step k other <;> rfl

-- So what stands under another name that is no longer can be found.
theorem resolve_twin {other : String} {m : Location} (hname : IsFileName name) (hother : IsFileName other)
    (hle : other.utf8ByteSize ≤ name.utf8ByteSize) (hr : h.resolve (p.join name) = .ok m)
    (he : (h.tree.entry? (FileTree.place h.cwd p ++ [other])).isSome = true) :
    h.resolve (p.join other) = .ok (FileTree.place h.cwd p ++ [other]) := by
  have hu := (FileTree.resolve_eq_ok hr).1
  obtain ⟨hdir, hself⟩ := resolve_sibling hname hname hr hu
  have hlong : name.utf8ByteSize ≤ FileTree.maxName := by
    rw [hself] at hr
    obtain ⟨-, -, hdots | ⟨hlong, -⟩⟩ := FileTree.step_eq_ok_iff.mp hr
    · simp [hname.1, hname.2.1, hname.2.2.1] at hdots
    · exact hlong
  rw [(resolve_sibling hname hother hr (Path.unusable?_join_mono hname hother hle hu)).2,
    FileTree.step_eq_ok_iff, FileTree.lexicalStep_name hother]
  exact ⟨hdir, rfl, .inr ⟨Nat.le_trans hle hlong, he⟩⟩

end Host

end TemplateEngine
