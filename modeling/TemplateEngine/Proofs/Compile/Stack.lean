import TemplateEngine.Proofs.Compile.Reach

-- Joining templates with a stack that is kept in the state: a file is put on it when its joining
-- begins and taken off when it ends, also when it fails. Nothing but a depth bounds the recursion
-- here. The stack comes back as it was, never holds a file twice, and so a depth of one more than the
-- number of files is enough on any graph of references, and gives what `compile` gives.
namespace TemplateEngine.Compile

def Distinct (stack : List Path) : Prop := stack.Pairwise fun p q => p.same q = false

theorem Path.same_comm (p q : Path) : p.same q = q.same p := by
  simp only [Path.same, Bool.beq_comm]

theorem Distinct.push {stack : List Path} {p : Path} (h : Distinct stack)
    (hp : ¬stack.any (·.same p) = true) : Distinct (stack ++ [p]) := by
  refine List.pairwise_append.mpr ⟨h, List.pairwise_singleton _ _, fun q hq r hr => ?_⟩
  rw [List.mem_singleton.mp hr]
  exact Bool.eq_false_iff.mpr fun hqp => hp (List.any_eq_true.mpr ⟨q, hq, hqp⟩)

-- The files being joined, innermost last, what was found, and every stack that was held so far.
structure Progress where
  stack : List Path
  trail : Trail
  held : List (List Path)

-- A run ends, or fails, or goes deeper than it may. What it did stays also when it fails.
abbrev Tracking := ExceptT Failure (StateT Progress Option)

def enter (path : Path) : Tracking Unit := do
  let s ← get
  if s.stack.any (·.same path) then throw ⟨some path, .circular path (s.stack ++ [path])⟩
  else set (⟨s.stack ++ [path], s.trail, s.held ++ [s.stack ++ [path]]⟩ : Progress)

def Progress.leave (s : Progress) : Progress := { s with stack := s.stack.dropLast }

-- Runs with a file on the stack, and takes it off however the run ends.
def within {α : Type} (path : Path) (x : Tracking α) : Tracking α := do
  enter path
  ExceptT.mk fun s => (x.run s).map fun (result, after) => (result, after.leave)

def trackName (c : Compiler) (h : Host) (file : Location → Tracking (List Node)) (path : Option Path)
    (name : String) : Tracking (List Node) :=
  match locate c.options h name path with
  | .error searched => throw ⟨path, .templateNotFound name searched⟩
  | .ok l => do
    modify fun s => { s with trail := s.trail.record name path l.path }
    file l

def trackSource (c : Compiler) (h : Host) (file : Location → Tracking (List Node)) (source : String)
    (path : Option Path) : Tracking (List Node) :=
  match plan c source with
  | .error fault => throw ⟨path, fault⟩
  | .ok p => p.assemble <$> p.names.mapM (trackName c h file path)

-- Joins the file at a place, with at most `depth` files open at a time.
def trackFile (c : Compiler) (h : Host) : Nat → Location → Tracking (List Node)
  | 0, _ => ExceptT.mk fun _ => none
  | depth + 1, l => within l.path
    (match h.textAt l with
    | .error fault => throw ⟨some l.path, .unreadable l.path fault.message⟩
    | .ok text => trackSource c h (trackFile c h depth) text (some l.path))

def trackOrigin (c : Compiler) (h : Host) (depth : Nat) (source : String) (origin : Option Path) :
    Tracking (List Node) :=
  match origin with
  | none => trackSource c h (trackFile c h depth) source none
  | some p => within p (trackSource c h (trackFile c h depth) source (some p))

def trackCompile (c : Compiler) (h : Host) (depth : Nat) (source : String) (path : Option Path) :
    Option (Except Failure Compiled × Progress) :=
  ((trackOrigin c h depth source (path.map h.absolute)).run ⟨[], .empty, [[]]⟩).map fun (result, s) =>
    (result.map fun nodes => ⟨.ofNodes nodes, s.trail.dependencies, s.trail.resolutions⟩, s)

variable {α β : Type}

theorem tracking_bind_run (x : Tracking α) (f : α → Tracking β) (s : Progress) :
    (x >>= f).run s =
      match x.run s with
      | none => none
      | some (.error failure, s') => some (.error failure, s')
      | some (.ok a, s') => (f a).run s' := by
  unfold ExceptT.run
  simp only [bind, ExceptT.bind, ExceptT.mk, StateT.bind, ExceptT.bindCont]
  cases x s with
  | none => rfl
  | some result =>
    obtain ⟨r, s'⟩ := result
    cases r <;> rfl

theorem tracking_bind_eq_some {x : Tracking α} {f : α → Tracking β} {s s' : Progress}
    {result : Except Failure β} (hrun : (x >>= f).run s = some (result, s')) :
    (∃ failure, x.run s = some (.error failure, s') ∧ result = .error failure) ∨
      ∃ a t, x.run s = some (.ok a, t) ∧ (f a).run t = some (result, s') := by
  rw [tracking_bind_run] at hrun
  cases hxs : x.run s with
  | none =>
    rw [hxs] at hrun
    cases hrun
  | some first =>
    rw [hxs] at hrun
    obtain ⟨failure | a, t⟩ := first
    · cases hrun
      exact .inl ⟨failure, rfl, rfl⟩
    · exact .inr ⟨a, t, rfl, hrun⟩

theorem tracking_map_run (f : α → β) (x : Tracking α) (s : Progress) :
    (f <$> x).run s = (x.run s).map fun (result, s') => (result.map f, s') := by
  rw [map_eq_pure_bind, tracking_bind_run]
  cases x.run s with
  | none => rfl
  | some result =>
    obtain ⟨r, s'⟩ := result
    cases r <;> rfl

theorem enter_run (path : Path) (s : Progress) :
    (enter path).run s =
      some (if s.stack.any (·.same path) then
        (.error ⟨some path, .circular path (s.stack ++ [path])⟩, s)
      else (.ok (), ⟨s.stack ++ [path], s.trail, s.held ++ [s.stack ++ [path]]⟩)) := by
  unfold enter
  rw [tracking_bind_run]
  change (if s.stack.any (·.same path) then _ else _ : Tracking Unit).run s = _
  split
  · rfl
  · rfl

theorem within_run (path : Path) (x : Tracking α) (s : Progress) :
    (within path x).run s =
      if s.stack.any (·.same path) then
        some (.error ⟨some path, .circular path (s.stack ++ [path])⟩, s)
      else
        (x.run ⟨s.stack ++ [path], s.trail, s.held ++ [s.stack ++ [path]]⟩).map
          fun (result, after) => (result, after.leave) := by
  unfold within
  rw [tracking_bind_run, enter_run]
  by_cases hp : s.stack.any (·.same path) = true
  · simp only [if_pos hp]
  · simp only [if_neg hp]
    rfl

theorem trackName_run (c : Compiler) (h : Host) (file : Location → Tracking (List Node))
    (path : Option Path) (name : String) (s : Progress) :
    (trackName c h file path name).run s =
      match locate c.options h name path with
      | .error searched => some (.error ⟨path, .templateNotFound name searched⟩, s)
      | .ok l => (file l).run { s with trail := s.trail.record name path l.path } := by
  unfold trackName
  cases locate c.options h name path with
  | error searched => rfl
  | ok l =>
    dsimp only
    rw [tracking_bind_run]
    rfl

-- A run that leaves the stack as it was, and holds no stack on its way in which a path stands twice.
def Balanced (x : Tracking α) : Prop :=
  ∀ s result s', x.run s = some (result, s') → s'.stack = s.stack ∧
    (Distinct s.stack → ∀ k ∈ s'.held, k ∈ s.held ∨ Distinct k)

theorem balanced_throw (failure : Failure) : Balanced (throw failure : Tracking α) := by
  intro s result s' hrun
  cases hrun
  exact ⟨rfl, fun _ k hk => .inl hk⟩

theorem balanced_pure (a : α) : Balanced (pure a) := by
  intro s result s' hrun
  cases hrun
  exact ⟨rfl, fun _ k hk => .inl hk⟩

theorem Balanced.bind {x : Tracking α} {f : α → Tracking β} (hx : Balanced x)
    (hf : ∀ a, Balanced (f a)) : Balanced (x >>= f) := by
  intro s result s' hrun
  rcases tracking_bind_eq_some hrun with ⟨failure, hxs, -⟩ | ⟨a, t, hxs, hfs⟩
  · exact hx s _ _ hxs
  · obtain ⟨hstack, hheld⟩ := hx s _ _ hxs
    obtain ⟨hstack', hheld'⟩ := hf a t _ _ hfs
    refine ⟨hstack'.trans hstack, fun hs k hk => ?_⟩
    rcases hheld' (hstack ▸ hs) k hk with hk | hk
    · exact hheld hs k hk
    · exact .inr hk

theorem balanced_mapM {f : String → Tracking (List Node)} (hf : ∀ name, Balanced (f name))
    (names : List String) : Balanced (names.mapM f) := by
  induction names with
  | nil => exact balanced_pure []
  | cons name names ih =>
    rw [List.mapM_cons]
    exact (hf name).bind fun body => ih.bind fun bodies => balanced_pure _

theorem Balanced.within {path : Path} {x : Tracking α} (hx : Balanced x) : Balanced (within path x) := by
  intro s result s' hrun
  rw [within_run] at hrun
  split at hrun
  · cases hrun
    exact ⟨rfl, fun _ k hk => .inl hk⟩
  · next hpath =>
    obtain ⟨⟨result', after⟩, hafter, he⟩ := Option.map_eq_some_iff.mp hrun
    cases he
    obtain ⟨hstack, hheld⟩ := hx _ _ _ hafter
    refine ⟨by simp [Progress.leave, hstack], fun hs k hk => ?_⟩
    rcases hheld (hs.push hpath) k hk with hk | hk
    · rcases List.mem_append.mp hk with hk | hk
      · exact .inl hk
      · exact .inr (List.mem_singleton.mp hk ▸ hs.push hpath)
    · exact .inr hk

theorem balanced_trackName {c : Compiler} {h : Host} {file : Location → Tracking (List Node)}
    (hfile : ∀ l, Balanced (file l)) (path : Option Path) (name : String) :
    Balanced (trackName c h file path name) := by
  intro s result s' hrun
  rw [trackName_run] at hrun
  split at hrun
  · cases hrun
    exact ⟨rfl, fun _ k hk => .inl hk⟩
  · have hkeep := hfile _ _ _ _ hrun
    exact hkeep

theorem balanced_trackSource {c : Compiler} {h : Host} {file : Location → Tracking (List Node)}
    (hfile : ∀ l, Balanced (file l)) (source : String) (path : Option Path) :
    Balanced (trackSource c h file source path) := by
  unfold trackSource
  split
  · exact balanced_throw _
  · rw [map_eq_pure_bind]
    exact (balanced_mapM (balanced_trackName hfile path) _).bind fun bodies => balanced_pure _

-- Every file that is opened is closed again, whatever becomes of it.
theorem balanced_trackFile (c : Compiler) (h : Host) (depth : Nat) (l : Location) :
    Balanced (trackFile c h depth l) := by
  induction depth generalizing l with
  | zero =>
    intro s result s' hrun
    cases hrun
  | succ depth ih =>
    rw [trackFile]
    refine Balanced.within ?_
    split
    · exact balanced_throw _
    · exact balanced_trackSource ih _ _

-- Both ways of joining end, and in the same way. The trail of a failure is of no account.
def Tracks (x : Tracking α) (y : Linking α) (s : Progress) : Prop :=
  ∃ result s', x.run s = some (result, s') ∧ y.run s.trail = result.map fun a => (a, s'.trail)

theorem tracks_map {x : Tracking α} {y : Linking α} {s : Progress} (f : α → β) (hxy : Tracks x y s) :
    Tracks (f <$> x) (f <$> y) s := by
  obtain ⟨result, s', hx, hy⟩ := hxy
  refine ⟨result.map f, s', by rw [tracking_map_run, hx]; rfl, ?_⟩
  rw [StateT.run_map, hy]
  cases result <;> rfl

theorem tracks_mapM {f : String → Tracking (List Node)} {g : String → Linking (List Node)}
    {stack : List Path} (hf : ∀ name, Balanced (f name)) {names : List String}
    (hfg : ∀ name ∈ names, ∀ s : Progress, s.stack = stack → Tracks (f name) (g name) s)
    {s : Progress} (hs : s.stack = stack) : Tracks (names.mapM f) (names.mapM g) s := by
  induction names generalizing s with
  | nil => exact ⟨.ok [], s, rfl, rfl⟩
  | cons name names ih =>
    obtain ⟨result, s', hrun, hlink⟩ := hfg name (by simp) s hs
    rw [List.mapM_cons, List.mapM_cons]
    cases result with
    | error failure =>
      refine ⟨.error failure, s', by rw [tracking_bind_run, hrun], ?_⟩
      rw [StateT.run_bind, hlink]
      rfl
    | ok body =>
      have hs' : s'.stack = stack := ((hf name s _ _ hrun).1).trans hs
      obtain ⟨rest, s'', hrun', hlink'⟩ := ih (fun n hn => hfg n (by simp [hn])) hs'
      refine ⟨rest.map (body :: ·), s'', ?_, ?_⟩
      · rw [tracking_bind_run, hrun]
        simp only [← map_eq_pure_bind]
        rw [tracking_map_run, hrun']
        rfl
      · rw [StateT.run_bind, hlink]
        change ((names.mapM g >>= fun bodies => pure (body :: bodies)).run s'.trail) = _
        rw [← map_eq_pure_bind, StateT.run_map, hlink']
        cases rest <;> rfl

theorem tracks_trackSource {c : Compiler} {h : Host} {file : Location → Tracking (List Node)}
    {stack : List Path} (hbalanced : ∀ l, Balanced (file l))
    (hfile : ∀ l (s : Progress), s.stack = stack → Tracks (file l) (linkFile c h stack l) s)
    (source : String) (path : Option Path) {s : Progress} (hs : s.stack = stack) :
    Tracks (trackSource c h file source path) (link c h stack source path) s := by
  rw [link_eq, trackSource]
  cases plan c source with
  | error fault => exact ⟨.error ⟨path, fault⟩, s, rfl, rfl⟩
  | ok p =>
    refine tracks_map p.assemble (tracks_mapM (balanced_trackName hbalanced path) ?_ hs)
    intro name _ s hs
    unfold Tracks
    rw [trackName_run, visit_run]
    cases locate c.options h name path with
    | error searched => exact ⟨.error ⟨path, .templateNotFound name searched⟩, s, rfl, rfl⟩
    | ok l => exact hfile l { s with trail := s.trail.record name path l.path } hs

-- With every file entered one file fewer is left and one level of depth is used up.
theorem tracks_trackFile (c : Compiler) (h : Host) (depth : Nat) (stack : List Path)
    (hdepth : (unvisited h stack).length < depth) (l : Location) (s : Progress) (hs : s.stack = stack) :
    Tracks (trackFile c h depth l) (linkFile c h stack l) s := by
  induction depth generalizing stack l s with
  | zero => exact absurd hdepth (by simp)
  | succ depth ih =>
    unfold Tracks
    rw [trackFile, within_run, linkFile_run, hs]
    split
    · exact ⟨_, _, rfl, rfl⟩
    · next hl =>
      cases htext : h.textAt l with
      | error fault => exact ⟨_, _, rfl, rfl⟩
      | ok text =>
        have hless := length_unvisited_lt hl htext
        obtain ⟨result, s', hrun, hlink⟩ := tracks_trackSource (balanced_trackFile c h depth)
          (ih (stack ++ [l.path]) (by omega)) text (some l.path)
          (s := ⟨stack ++ [l.path], s.trail, s.held ++ [stack ++ [l.path]]⟩) rfl
        exact ⟨result, s'.leave, by simp only [hrun]; rfl, hlink⟩

theorem balanced_trackOrigin (c : Compiler) (h : Host) (depth : Nat) (source : String)
    (origin : Option Path) : Balanced (trackOrigin c h depth source origin) := by
  unfold trackOrigin
  cases origin with
  | none => exact balanced_trackSource (balanced_trackFile c h depth) source none
  | some p => exact (balanced_trackSource (balanced_trackFile c h depth) source (some p)).within

theorem tracks_trackOrigin {c : Compiler} {h : Host} {depth : Nat} (source : String)
    (origin : Option Path) (hdepth : h.tree.files.length < depth) :
    Tracks (trackOrigin c h depth source origin) (link c h origin.toList source origin)
      ⟨[], .empty, [[]]⟩ := by
  have hfile := fun stack => tracks_trackFile c h depth stack
    (Nat.lt_of_le_of_lt (List.length_filter_le _ _) hdepth)
  have hbalanced := balanced_trackFile c h depth
  unfold trackOrigin
  cases origin with
  | none => exact tracks_trackSource hbalanced (hfile []) source none rfl
  | some p =>
    obtain ⟨result, s, hrun, hlink⟩ := tracks_trackSource hbalanced (hfile [p]) source (some p)
      (s := ⟨[p], .empty, [[], [p]]⟩) rfl
    exact ⟨result, s.leave, by rw [within_run]; simp [hrun], hlink⟩

-- The stack is empty again at the end, no stack on the way held a path twice, and the outcome is
-- that of `compile`, which keeps no stack of its own.
theorem trackCompile_eq (c : Compiler) (h : Host) (depth : Nat) (source : String) (path : Option Path)
    (hdepth : h.tree.files.length < depth) :
    ∃ s, trackCompile c h depth source path = some (compile c h source path, s) ∧
      s.stack = [] ∧ ∀ k ∈ s.held, Distinct k := by
  obtain ⟨result, s, hrun, hlink⟩ := tracks_trackOrigin (c := c) source (path.map h.absolute) hdepth
  obtain ⟨hstack, hheld⟩ := balanced_trackOrigin c h depth source _ _ _ _ hrun
  refine ⟨s, ?_, hstack, fun k hk => ?_⟩
  · unfold trackCompile compile
    rw [hrun]
    dsimp only
    rw [hlink]
    cases result <;> rfl
  · rcases hheld List.Pairwise.nil k hk with hk | hk
    · rw [List.mem_singleton.mp hk]
      exact List.Pairwise.nil
    · exact hk

end TemplateEngine.Compile
