import TemplateEngine.Proofs.Files.Trims

-- Which places decide where a path leads: those that the walk along it comes by. What changes
-- elsewhere changes nothing for the path.
namespace TemplateEngine

namespace FileTree

variable {t t' : FileTree} {l m : Location} {name : String} {names others : List String}

-- The places that a walk asks about, the last one included where it ends or fails.
def visited (t : FileTree) (l : Location) : List String → List Location
  | [] => [l]
  | name :: names =>
    match t.step l name with
    | .ok m => l :: t.visited m names
    | .error _ => [l, lexicalStep l name]

theorem walk_cons : t.walk l (name :: names) = (t.step l name).bind fun m => t.walk m names := by
  rw [walk, List.foldlM_cons]
  rfl

theorem walk_append : t.walk l (names ++ others) = (t.walk l names).bind fun m => t.walk m others := by
  rw [walk, List.foldlM_append]
  rfl

theorem isDirectoryAt_congr (he : t'.entry? l = t.entry? l) : t'.isDirectoryAt l = t.isDirectoryAt l := by
  unfold isDirectoryAt
  rw [he]

theorem step_congr (hl : t'.entry? l = t.entry? l)
    (hm : t'.entry? (lexicalStep l name) = t.entry? (lexicalStep l name)) :
    t'.step l name = t.step l name := by
  unfold step
  rw [isDirectoryAt_congr hl]
  by_cases hstay : name = "" ∨ name = "."
  · simp [hstay]
  by_cases hup : name = ".."
  · simp [hup]
  · have hchild : lexicalStep l name = l ++ [name] := by
      rw [not_or] at hstay
      simp [lexicalStep, hstay, hup]
    rw [← hchild, hm]

theorem mem_visited (t : FileTree) (l : Location) (names : List String) : l ∈ t.visited l names := by
  cases names with
  | nil => exact List.mem_singleton_self l
  | cons name names =>
    unfold visited
    split <;> exact List.mem_cons_self

theorem mem_visited_of_walk (hw : t.walk l names = .ok m) : m ∈ t.visited l names := by
  induction names generalizing l with
  | nil =>
    cases hw
    exact mem_visited t _ []
  | cons name names ih =>
    obtain ⟨k, hs, hw⟩ := walk_cons_eq_ok hw
    unfold visited
    rw [hs]
    exact List.mem_cons_of_mem _ (ih hw)

-- A walk through places that are the same in another tree goes the same way there.
theorem walk_congr (hsame : ∀ m ∈ t.visited l names, t'.entry? m = t.entry? m) :
    t'.walk l names = t.walk l names ∧ t'.visited l names = t.visited l names := by
  induction names generalizing l with
  | nil => exact ⟨rfl, rfl⟩
  | cons name names ih =>
    have hstep : t'.step l name = t.step l name := by
      refine step_congr (hsame l (mem_visited t l _)) (hsame _ ?_)
      unfold visited
      cases hs : t.step l name with
      | error fault => simp
      | ok m =>
        rw [← (step_eq_ok_iff.mp hs).2.1]
        exact List.mem_cons_of_mem _ (mem_visited t m names)
    rw [walk_cons, walk_cons, visited, visited, hstep]
    cases hs : t.step l name with
    | error fault => exact ⟨rfl, rfl⟩
    | ok m =>
      obtain ⟨hwalk, hvisited⟩ := ih (l := m) fun k hk => hsame k (by
        unfold visited
        rw [hs]
        exact List.mem_cons_of_mem _ hk)
      dsimp only
      rw [hvisited]
      exact ⟨hwalk, rfl⟩

-- The places that names lead by, if they lead anywhere.
def way (l : Location) : List String → List Location
  | [] => [l]
  | name :: names => l :: way (lexicalStep l name) names

theorem visited_of_walk (hw : t.walk l names = .ok m) : t.visited l names = way l names := by
  induction names generalizing l with
  | nil => rfl
  | cons name names ih =>
    obtain ⟨k, hs, hw⟩ := walk_cons_eq_ok hw
    unfold visited way
    rw [hs, ← (step_eq_ok_iff.mp hs).2.1]
    dsimp only
    rw [ih hw]

-- All that leads to a directory is a directory.
theorem isDirectoryAt_of_mem_way (hw : t.walk l names = .ok m) (hm : t.isDirectoryAt m = true)
    {k : Location} (hk : k ∈ way l names) : t.isDirectoryAt k = true := by
  induction names generalizing l with
  | nil =>
    cases hw
    rwa [List.mem_singleton.mp hk]
  | cons name names ih =>
    obtain ⟨n, hs, hw⟩ := walk_cons_eq_ok hw
    rcases List.mem_cons.mp hk with rfl | hk
    · exact (step_eq_ok_iff.mp hs).1
    · rw [← (step_eq_ok_iff.mp hs).2.1] at hk
      exact ih hw hk

theorem lexicalStep_ne_nil (hname : name ∉ ["", ".", ".."]) (l : Location) : lexicalStep l name ≠ [] := by
  simp only [List.mem_cons, List.not_mem_nil, or_false, not_or] at hname
  simp [lexicalStep, hname]

theorem step_of_directories (hdirs : ∀ k, t.isDirectoryAt k = true → t'.isDirectoryAt k = true)
    (hs : t.step l name = .ok m) (hm : t.isDirectoryAt m = true) : t'.step l name = .ok m := by
  obtain ⟨hl, heq, hname⟩ := step_eq_ok_iff.mp hs
  refine step_eq_ok_iff.mpr ⟨hdirs l hl, heq, ?_⟩
  by_cases hdots : name ∈ ["", ".", ".."]
  · exact .inl hdots
  · obtain ⟨hlong, -⟩ := hname.resolve_left hdots
    rcases isDirectoryAt_iff.mp (hdirs m hm) with hnil | ⟨changed, he⟩
    · exact absurd (heq.symm.trans hnil) (lexicalStep_ne_nil hdots l)
    · exact .inr ⟨hlong, by rw [he]; rfl⟩

-- A walk to a directory leads through directories only.
theorem walk_of_directories (hdirs : ∀ k, t.isDirectoryAt k = true → t'.isDirectoryAt k = true)
    (hw : t.walk l names = .ok m) (hm : t.isDirectoryAt m = true) : t'.walk l names = .ok m := by
  induction names generalizing l with
  | nil => exact hw
  | cons name names ih =>
    obtain ⟨k, hs, hw⟩ := walk_cons_eq_ok hw
    have hk : t.isDirectoryAt k = true := by
      cases names with
      | nil =>
        cases hw
        exact hm
      | cons next names =>
        obtain ⟨_, hs', -⟩ := walk_cons_eq_ok hw
        exact isDirectoryAt_of_step hs'
    rw [walk_cons, step_of_directories hdirs hs hk]
    exact ih hw

end FileTree

namespace Host

variable {h h' : Host} {p : Path} {l : Location}

-- The places that resolving a path asks about.
def asked (h : Host) (p : Path) : List Location :=
  match FileTree.unusable? p with
  | some _ => []
  | none => h.tree.visited (FileTree.start h.cwd p) (FileTree.stepNames p)

theorem mem_asked_of_resolve (hr : h.resolve p = .ok l) : l ∈ h.asked p := by
  obtain ⟨hu, -⟩ := FileTree.resolve_eq_ok hr
  unfold resolve FileTree.resolve at hr
  unfold asked
  rw [hu] at hr ⊢
  exact FileTree.mem_visited_of_walk hr

-- Two hosts in which the same stands everywhere but inside.
structure SameBut (inside : Location → Prop) (h h' : Host) : Prop where
  cwd : h'.cwd = h.cwd
  entries : ∀ l, ¬inside l → h'.tree.entry? l = h.tree.entry? l

variable {inside inside' : Location → Prop}

theorem SameBut.refl (inside : Location → Prop) (h : Host) : h.SameBut inside h := ⟨rfl, fun _ _ => rfl⟩

theorem SameBut.trans {h'' : Host} (hs : h.SameBut inside h') (hs' : h'.SameBut inside h'') :
    h.SameBut inside h'' :=
  ⟨hs'.cwd.trans hs.cwd, fun l hl => (hs'.entries l hl).trans (hs.entries l hl)⟩

theorem SameBut.mono (hs : h.SameBut inside h') (hin : ∀ l, inside l → inside' l) : h.SameBut inside' h' :=
  ⟨hs.cwd, fun l hl => hs.entries l fun hl' => hl (hin l hl')⟩

theorem SameBut.resolve (hs : h.SameBut inside h') (hout : ∀ m ∈ h.asked p, ¬inside m) :
    h'.resolve p = h.resolve p ∧ h'.asked p = h.asked p := by
  unfold Host.resolve FileTree.resolve asked at *
  rw [hs.cwd]
  cases hu : FileTree.unusable? p with
  | some fault => exact ⟨rfl, rfl⟩
  | none =>
    rw [hu] at hout
    exact FileTree.walk_congr fun m hm => hs.entries m (hout m hm)

theorem SameBut.textAt (hs : h.SameBut inside h') (hout : ¬inside l) : h'.textAt l = h.textAt l := by
  unfold Host.textAt
  rw [hs.entries l hout]

end Host

end TemplateEngine
