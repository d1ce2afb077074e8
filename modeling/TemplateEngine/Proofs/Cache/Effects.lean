import TemplateEngine.Proofs.Cache.Names
import TemplateEngine.Proofs.Files.Growth

-- What the operations of a cache do to the files around it, and what a lookup says about them.
namespace TemplateEngine

theorem Host.read_eq_ok {h : Host} {p : Path} {text : String} (hr : h.read p = .ok text) :
    ∃ changed, h.tree.entry? (FileTree.place h.cwd p) = some (.file text.toUTF8 changed) := by
  obtain ⟨l, hl, hs⟩ := bind_eq_ok hr
  obtain rfl := (FileTree.resolve_eq_ok hl).2
  exact textAt_eq_ok hs

namespace Cache

namespace Change

def Adding : Change → Location → Location → ByteArray → Prop
  | write p content => Action.Written p content.toUTF8
  | remove _ | removeTree _ => fun _ _ _ => False

theorem make_adds (change : Change) : Keeps (Host.Adds change.Adding) change.make := by
  cases change with
  | write p content => exact (Action.writeFile_adds p content.toUTF8).adapt _
  | remove p =>
    refine Keeps.adapt _ (Keeps.bind (Host.Adds.trans _) (Action.removeFile_adds p) fun _ => ?_)
    exact Host.Adds.refl _
  | removeTree p =>
    refine Keeps.bind (Host.Adds.trans _) (Host.Adds.refl _) fun directory => ?_
    split
    · exact (Action.removeTree_adds p).adapt _
    · exact Host.Adds.refl _

theorem makeAll_adds (changes : List Change) :
    Keeps (Host.Adds fun cwd l content => ∃ change ∈ changes, change.Adding cwd l content)
      (makeAll changes) := by
  refine Keeps.forM (Host.Adds.refl _) (Host.Adds.trans _) fun change hchange h => ?_
  exact (make_adds change h).mono fun l content hnew => ⟨change, hchange, hnew⟩

-- Files that are removed from a valid tree are all that is removed.
theorem make_remove_trims (p : Path) {h : Host} (hv : h.Valid) :
    h.Trims (fun cwd l => l = FileTree.place cwd p) ((remove p).make.run h).2 := by
  have hrun : ((remove p).make.run h).2 = ((Action.removeFile p).run h).2 := by
    unfold make
    rw [run_adapt, run_bind]
    cases (Action.removeFile p).run h with
    | mk result h' => cases result <;> rfl
  rw [hrun]
  exact Action.removeFile_trims p hv

end Change

-- Storing an entry adds its code, its metadata and an index, and nothing else.
theorem store_adds (c : Cache) {k : Key} (hk : k.Plain) (code : String) (m : Metadata)
    (resolutions : List Compile.Resolution) :
    Keeps (Host.Adds fun cwd l content =>
      l = c.root cwd ++ [k.digits ++ codeSuffix] ∧ content = code.toUTF8 ∨
        l = c.root cwd ++ [k.digits ++ metaSuffix] ∧ content = m.text.toUTF8 ∨
        l = c.root cwd ++ ["index", digest m.source.text ++ ".json"])
      (c.store k code m resolutions) := by
  intro h
  refine (Change.makeAll_adds _ h).mono ?_
  rintro l content ⟨change, hchange, hnew⟩
  simp only [storing, indexing, List.mem_cons, List.not_mem_nil, or_false] at hchange
  rcases hchange with rfl | rfl | rfl
  · rw [Change.Adding, Action.Written, place_codePath c h.cwd hk] at hnew
    exact .inl hnew
  · rw [Change.Adding, Action.Written, place_metaPath c h.cwd hk] at hnew
    exact .inr (.inl hnew)
  · rw [Change.Adding, Action.Written, place_indexPath] at hnew
    exact .inr (.inr hnew.1)

theorem writeIndex_adds (c : Cache) (i : Index) :
    Keeps (Host.Adds fun cwd l _ => l = c.root cwd ++ ["index", digest i.source.text ++ ".json"])
      (c.writeIndex i) := by
  intro h
  refine (Change.make_adds _ h).mono fun l content hnew => ?_
  rw [indexing, Change.Adding, Action.Written, place_indexPath] at hnew
  exact hnew.1

theorem remove_trims (c : Cache) {k : Key} (hk : k.Plain) {h : Host} (hv : h.Valid) :
    h.Trims (fun cwd l => c.root cwd <+: l) ((c.remove k).run h).2 ∧ ((c.remove k).run h).2.Valid := by
  have hmeta := Change.make_remove_trims (c.metaPath k) hv
  have hvalid := (Change.make_adds (.remove (c.metaPath k)) h).valid hv
  have hfirst : h.Trims (fun cwd l => c.root cwd <+: l)
      ((Change.remove (c.metaPath k)).make.run h).2 := by
    refine hmeta.mono fun l hl => ?_
    rw [hl, place_metaPath c h.cwd hk]
    exact List.prefix_append _ _
  have hcons : c.remove k =
      ((Change.remove (c.metaPath k)).make >>= fun _ => Change.makeAll [.remove (c.codePath k)]) := rfl
  rw [hcons, run_bind]
  cases hrun : (Change.remove (c.metaPath k)).make.run h with
  | mk result h' =>
    rw [hrun] at hfirst hvalid
    cases result with
    | error failure => exact ⟨hfirst, hvalid⟩
    | ok _ =>
      have hcode := Change.make_remove_trims (c.codePath k) hvalid
      have hlast : (Change.makeAll [.remove (c.codePath k)]).run h' =
          (Change.remove (c.codePath k)).make.run h' := by
        change ((Change.remove (c.codePath k)).make >>= fun _ => pure ()).run h' = _
        rw [bind_pure_unit]
      simp only
      rw [hlast]
      refine ⟨hfirst.trans (hcode.mono fun l hl => ?_), (Change.make_adds _ h').valid hvalid⟩
      rw [hl, place_codePath c h'.cwd hk]
      exact List.prefix_append _ _

theorem remove_adds (c : Cache) (k : Key) : Keeps (Host.Adds fun _ _ _ => False) (c.remove k) := by
  intro h
  refine (Change.makeAll_adds _ h).mono ?_
  rintro l content ⟨change, hchange, hnew⟩
  simp only [removing, List.mem_cons, List.not_mem_nil, or_false] at hchange
  rcases hchange with rfl | rfl <;> exact hnew

theorem clear_adds (c : Cache) : Keeps (Host.Adds fun _ _ _ => False) c.clear := by
  have hclearing : ∀ keys, Keeps (Host.Adds fun _ _ _ => False) (Change.makeAll (c.clearing keys)) := by
    intro keys h
    refine (Change.makeAll_adds _ h).mono ?_
    rintro l content ⟨change, hchange, hnew⟩
    rcases List.mem_append.mp hchange with hchange | hchange
    · obtain ⟨k, -, hchange⟩ := List.mem_flatMap.mp hchange
      simp only [removing, List.mem_cons, List.not_mem_nil, or_false] at hchange
      rcases hchange with rfl | rfl <;> exact hnew
    · rw [List.mem_singleton] at hchange
      subst hchange
      exact hnew
  unfold clear
  refine Keeps.bind (Host.Adds.trans _) (Host.Adds.refl _) fun h => ?_
  refine Keeps.bind (Host.Adds.trans _) ?_ fun all => ?_
  · cases c.entries h <;> exact Host.Adds.refl _
  · exact Keeps.bind (Host.Adds.trans _) (hclearing _) fun _ => Host.Adds.refl _

-- An entry is found only where there are files of metadata and of code under its key.
theorem lookup_eq_fresh {c : Cache} {h : Host} {k : Key} {code : String} {m : Metadata} (hk : k.Plain)
    (hl : c.lookup h k = .fresh code m) :
    (∃ text changed, h.tree.entry? (c.root h.cwd ++ [k.digits ++ metaSuffix]) =
        some (.file text.toUTF8 changed) ∧ Metadata.ofText? text = some m) ∧
      ∃ changed, h.tree.entry? (c.root h.cwd ++ [k.digits ++ codeSuffix]) =
        some (.file code.toUTF8 changed) := by
  unfold lookup at hl
  split at hl
  · split at hl
    · cases hl
    next m' hm =>
    split at hl
    · split at hl
      · next code' hcode =>
        cases hl
        obtain ⟨text, htext, hread⟩ := Option.bind_eq_some_iff.mp hm
        have hmeta : h.read (c.metaPath k) = .ok text := by
          cases hr : h.read (c.metaPath k) <;> rw [hr] at htext <;> cases htext
          rfl
        obtain ⟨changed, he⟩ := Host.read_eq_ok hmeta
        obtain ⟨changed', he'⟩ := Host.read_eq_ok hcode
        rw [place_metaPath c h.cwd hk] at he
        rw [place_codePath c h.cwd hk] at he'
        exact ⟨⟨text, changed, he, hread⟩, changed', he'⟩
      · cases hl
    · cases hl
  · cases hl

theorem index?_eq_some {c : Cache} {h : Host} {source : Path} {i : Index} (hi : c.index? h source = some i) :
    ∃ text, h.read (c.indexPath source) = .ok text ∧ Index.ofText? text = some i ∧
      i.source.same source = true := by
  unfold Cache.index? at hi
  obtain ⟨j, hj, hi⟩ := Option.bind_eq_some_iff.mp hi
  obtain ⟨text, htext, hread⟩ := Option.bind_eq_some_iff.mp hj
  have hfile : h.read (c.indexPath source) = .ok text := by
    cases hr : h.read (c.indexPath source) <;> rw [hr] at htext <;> cases htext
    rfl
  split at hi
  · next hall =>
    cases hi
    exact ⟨text, hfile, hread, (Bool.and_eq_true_iff.mp hall).1⟩
  · cases hi

end Cache
end TemplateEngine
