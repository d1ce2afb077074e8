import TemplateEngine.Proofs.Compile.Alone
import TemplateEngine.Proofs.Compile.Unnested
import Mathlib.Data.List.Forall2

-- Templates that extend one another, each the next one, through any number of files.
namespace TemplateEngine.Compile

open Node

mutual

theorem plug_eq_self : ∀ {node : Node}, includes node = [] → ∀ bodies, plug node bodies = [node]
  | .including name line, h, _ => by simp [includes] at h
  | .choice branches none, h, bodies => by
    rw [includes] at h
    rw [plug, plugBranches_eq_self h]
  | .choice branches (some body), h, bodies => by
    rw [includes, List.append_eq_nil_iff] at h
    rw [plug, plugBranches_eq_self h.1, plugAll_eq_self h.2]
  | .loop kind header body, h, bodies => by
    rw [includes] at h
    rw [plug, plugAll_eq_self h]
  | .block name body, h, bodies => by
    rw [includes] at h
    rw [plug, plugAll_eq_self h]
  | .text _, _, _ | .echo _ _ _, _, _ | .parent, _, _ | .extending _ _, _, _ => by simp [plug]

theorem plugAll_eq_self : ∀ {nodes : List Node}, includesOf nodes = [] →
    ∀ bodies, plugAll nodes bodies = nodes
  | [], _, _ => by rw [plugAll]
  | node :: nodes, h, bodies => by
    rw [includesOf, List.append_eq_nil_iff] at h
    rw [plugAll, plug_eq_self h.1, plugAll_eq_self h.2, List.singleton_append]

theorem plugBranches_eq_self : ∀ {branches : List (Branch Node)}, includesOfBranches branches = [] →
    ∀ bodies, plugBranches branches bodies = branches
  | [], _, _ => by rw [plugBranches]
  | ⟨condition, body⟩ :: branches, h, bodies => by
    rw [includesOfBranches, List.append_eq_nil_iff] at h
    rw [plugBranches, plugAll_eq_self h.1, plugBranches_eq_self h.2]

end

theorem includesOf_append (nodes others : List Node) :
    includesOf (nodes ++ others) = includesOf nodes ++ includesOf others := by
  induction nodes with
  | nil => rw [List.nil_append, includesOf, List.nil_append]
  | cons node nodes ih => rw [List.cons_append, includesOf, includesOf, ih, List.append_assoc]

mutual

theorem includesOf_topBlocks : ∀ {node : Node}, includes node = [] → includesOf (topBlocks node) = []
  | .block name body, h => by
    rw [topBlocks, includesOf, h]
    rfl
  | .choice branches none, h => by
    rw [includes] at h
    rw [topBlocks, includesOf_topBlocksOfBranches h]
  | .choice branches (some body), h => by
    rw [includes, List.append_eq_nil_iff] at h
    rw [topBlocks, includesOf_append, includesOf_topBlocksOfBranches h.1, includesOf_topBlocksOf h.2]
    rfl
  | .loop kind header body, h => by
    rw [includes] at h
    rw [topBlocks, includesOf_topBlocksOf h]
  | .text _, _ | .echo _ _ _, _ | .parent, _ | .extending _ _, _ | .including _ _, _ => by
    simp [topBlocks, includesOf]

theorem includesOf_topBlocksOf : ∀ {nodes : List Node}, includesOf nodes = [] →
    includesOf (topBlocksOf nodes) = []
  | [], _ => by rw [topBlocksOf, includesOf]
  | node :: nodes, h => by
    rw [includesOf, List.append_eq_nil_iff] at h
    rw [topBlocksOf, includesOf_append, includesOf_topBlocks h.1, includesOf_topBlocksOf h.2]
    rfl

theorem includesOf_topBlocksOfBranches : ∀ {branches : List (Branch Node)}, includesOfBranches branches = [] →
    includesOf (topBlocksOfBranches branches) = []
  | [], _ => by rw [topBlocksOfBranches, includesOf]
  | ⟨condition, body⟩ :: branches, h => by
    rw [includesOfBranches, List.append_eq_nil_iff] at h
    rw [topBlocksOfBranches, includesOf_append, includesOf_topBlocksOf h.1,
      includesOf_topBlocksOfBranches h.2]
    rfl

end

variable {c : Compiler} {h : Host} {l : Location} {files older : List Location}
  {root nodes : List Node} {heirs : List (List Node)} {stack : List Path} {text : String}
  {path : Option Path} {t t' : Trail}

-- The file at a place can be read, as a template with these nodes.
def Reads (c : Compiler) (h : Host) (l : Location) (nodes : List Node) : Prop :=
  ∃ text, h.textAt l = .ok text ∧ readSource c text = .ok nodes

-- Files of which each extends the next one, as far as it can be read, and the last one extends nothing.
inductive Lineage (c : Compiler) (h : Host) : List Location → Prop where
  | root {l : Location} (hroot : ∀ nodes, Reads c h l nodes → base? none nodes = .ok none) :
      Lineage c h [l]
  | heir {l k : Location} {older : List Location}
      (hheir : ∀ nodes, Reads c h l nodes → ∃ name, base? none nodes = .ok (some name) ∧
        locate c.options h name (some l.path) = .ok k)
      (holder : Lineage c h (k :: older)) : Lineage c h (l :: k :: older)

theorem plan_of_base {base : Option String} (hread : readSource c text = .ok nodes)
    (hbase : base? none nodes = .ok base) : plan c text = .ok (.ofNodes nodes base) := by
  simp only [plan, hread, hbase]

theorem readSource_of_plan {p : Plan} (hp : plan c text = .ok p) :
    ∃ nodes, readSource c text = .ok nodes := by
  unfold plan at hp
  cases hread : readSource c text with
  | error fault =>
    rw [hread] at hp
    cases hp
  | ok nodes => exact ⟨nodes, rfl⟩

theorem link_root (hread : readSource c text = .ok nodes) (hbase : base? none nodes = .ok none)
    (hnone : includesOf nodes = []) : (link c h stack text path).run t = .ok (nodes, t) := by
  rw [link_run, plan_of_base hread hbase]
  simp only [Plan.ofNodes, hnone, List.mapM_nil, plugAll_eq_self hnone]
  rfl

theorem link_heir {name : String} (hread : readSource c text = .ok nodes)
    (hbase : base? none nodes = .ok (some name)) (hnone : includesOf nodes = []) :
    (link c h stack text path).run t = ((visit c h stack path name).run t).map fun (base, t') =>
      (mergeAll (blockBodiesOf (topBlocksOf nodes)) base, t') := by
  have htop := includesOf_topBlocksOf hnone
  rw [link_run, plan_of_base hread hbase]
  simp only [Plan.ofNodes, htop, List.nil_append, List.mapM_cons, List.mapM_nil, plugAll_eq_self htop]
  rw [StateT.run_bind]
  cases (visit c h stack path name).run t <;> rfl

-- A file is joined only if it can be read, and so can all that it extends.
theorem reads_of_link (hlineage : Lineage c h (l :: older)) (htext : h.textAt l = .ok text)
    (hrun : (link c h stack text (some l.path)).run t = .ok (nodes, t')) :
    ∀ k ∈ l :: older, ∃ nodes, Reads c h k nodes := by
  generalize hfiles : l :: older = files at hlineage
  induction hlineage generalizing l older stack text t t' nodes with
  | root _ =>
    obtain ⟨rfl, -⟩ := List.cons.inj hfiles
    obtain ⟨p, -, hp, -⟩ := link_run_ok (a := ⟨text, some l.path⟩) hrun
    obtain ⟨own, hread⟩ := readSource_of_plan hp
    exact List.forall_mem_singleton.mpr ⟨own, text, htext, hread⟩
  | heir hheir _ ih =>
    obtain ⟨rfl, -⟩ := List.cons.inj hfiles
    obtain ⟨p, hp, hnames⟩ := link_visits (a := ⟨text, some l.path⟩) hrun
    obtain ⟨own, hread⟩ := readSource_of_plan hp
    have hown : Reads c h l own := ⟨text, htext, hread⟩
    obtain ⟨name, hbase, hlocate⟩ := hheir own hown
    obtain rfl := Except.ok.inj (hp.symm.trans (plan_of_base hread hbase))
    obtain ⟨k, other, s, u, body, hk, -, hother, hlink, -⟩ := hnames name (by simp [Plan.ofNodes])
    obtain rfl := Except.ok.inj (hlocate.symm.trans hk)
    exact List.forall_mem_cons.mpr ⟨⟨own, hown⟩, ih hother hlink rfl⟩

theorem any_same_path {seen : List Location} (hseen : ∀ m ∈ seen, m.Proper) (hl : l.Proper) :
    (seen.map Location.path).any (·.same l.path) = true ↔ l ∈ seen := by
  rw [List.any_map, List.any_eq_true]
  constructor
  · rintro ⟨m, hm, hsame⟩
    rwa [← (Location.path_same_iff (hseen m hm) hl).mp hsame]
  · exact fun hl => ⟨l, hl, Path.same_self _⟩

-- Files that can all be read are joined into what their trees give, if none of them is on the stack.
theorem link_of_reads (seen : List Location) (hcwd : h.cwd.Proper) (hlineage : Lineage c h (l :: older))
    (hseen : ∀ m ∈ seen, m.Proper) (hnew : (seen ++ older).Nodup) (htext : h.textAt l = .ok text)
    (hreads : List.Forall₂ (Reads c h) (l :: older) (heirs ++ [root]))
    (hapart : ∀ nodes ∈ heirs ++ [root], includesOf nodes = []) :
    ∃ t', (link c h (seen.map Location.path) text (some l.path)).run t = .ok (joined root heirs, t') := by
  generalize hfiles : l :: older = files at hlineage hreads
  induction hlineage generalizing l older seen text t heirs with
  | root hroot =>
    obtain ⟨rfl, rfl⟩ := List.cons.inj hfiles
    cases heirs with
    | cons tree rest => simpa using hreads.length_eq
    | nil =>
      obtain ⟨⟨own, htext', hread⟩, -⟩ := List.forall₂_cons.mp hreads
      obtain rfl := Except.ok.inj (htext.symm.trans htext')
      exact ⟨t, link_root hread (hroot root ⟨text, htext, hread⟩) (hapart root (by simp))⟩
  | @heir l k older hheir _ ih =>
    obtain ⟨rfl, rfl⟩ := List.cons.inj hfiles
    cases heirs with
    | nil => simpa using hreads.length_eq
    | cons tree rest =>
      obtain ⟨hown, hrest⟩ := List.forall₂_cons.mp hreads
      obtain ⟨name, hbase, hlocate⟩ := hheir tree hown
      obtain ⟨own, htext', hread⟩ := hown
      obtain rfl := Except.ok.inj (htext.symm.trans htext')
      obtain ⟨_, _, ⟨next, hnext, -⟩, -, -⟩ := List.forall₂_cons_left_iff.mp hrest
      have hk : k.Proper := locate_proper hcwd hlocate
      have hoff : ¬(seen.map Location.path).any (·.same k.path) = true := by
        rw [any_same_path hseen hk]
        exact fun hmem => (List.nodup_append.mp hnew).2.2 k hmem k (by simp) rfl
      have hseen' : ∀ m ∈ seen ++ [k], m.Proper :=
        List.forall_mem_append.mpr ⟨hseen, List.forall_mem_singleton.mpr hk⟩
      obtain ⟨t', hlink⟩ := ih (seen ++ [k]) (t := t.record name (some l.path) k.path) hseen'
        (by simpa using hnew) hnext (fun nodes hnodes => hapart nodes (List.mem_cons_of_mem _ hnodes))
        rfl hrest
      rw [List.map_append, List.map_singleton] at hlink
      refine ⟨t', ?_⟩
      rw [link_heir hread hbase (hapart tree (by simp)), visit_run, hlocate]
      simp only [linkFile_run, hnext, if_neg hoff, hlink]
      rfl

-- What a file says that is one of a chain of templates that only extend one another.
structure Plain (nodes : List Node) : Prop where
  unnested : Unnested nodes
  apart : includesOf nodes = []

-- The trees of files that can all be read, that of the last one apart.
theorem trees_of_reads (hreads : ∀ k ∈ l :: older, ∃ nodes, Reads c h k nodes)
    (hplain : ∀ k ∈ l :: older, ∀ nodes, Reads c h k nodes → Plain nodes) :
    ∃ heirs root, List.Forall₂ (Reads c h) (l :: older) (heirs ++ [root]) ∧
      ∀ tree ∈ heirs ++ [root], Plain tree := by
  induction older generalizing l with
  | nil =>
    obtain ⟨root, hroot⟩ := hreads l (by simp)
    exact ⟨[], root, .cons hroot .nil, by simpa using hplain l (by simp) root hroot⟩
  | cons k older ih =>
    rw [List.forall_mem_cons] at hreads hplain
    obtain ⟨tree, htree⟩ := hreads.1
    obtain ⟨heirs, root, hrest, hplains⟩ := ih hreads.2 hplain.2
    exact ⟨tree :: heirs, root, .cons htree hrest,
      List.forall_mem_cons.mpr ⟨hplain.1 tree htree, hplains⟩⟩

-- Files that extend one another, without blocks inside blocks and without includes, are compiled just if
-- all of them can be read. The program is the tree of the last one, in which each block has the body
-- that it inherits through all the others. It has no blocks but those of that tree.
theorem compile_lineage (c : Compiler) (h : Host) (source : String) (path : Path) (l : Location)
    (older : List Location) (hcwd : h.cwd.Proper) (hpath : h.resolve path = .ok l)
    (htext : h.textAt l = .ok source) (hlineage : Lineage c h (l :: older))
    (hdistinct : (l :: older).Nodup)
    (hplain : ∀ k ∈ l :: older, ∀ nodes, Reads c h k nodes → Plain nodes) :
    ((∃ r, compile c h source (some path) = .ok r) ↔ ∀ k ∈ l :: older, ∃ nodes, Reads c h k nodes) ∧
      ∀ r, compile c h source (some path) = .ok r → ∃ heirs root,
        List.Forall₂ (Reads c h) (l :: older) (heirs ++ [root]) ∧
        r.program = .ofNodes (rebodyOf (fun name body => some (inherited name body heirs)) root) ∧
        (standingsOf false r.program.nodes).map (·.name) = (standingsOf false root).map (·.name) := by
  have hl : l.Proper := Host.resolve_proper hcwd hpath
  have hcompile : compile c h source (some path) =
      ((link c h [l.path] source (some l.path)).run .empty).map fun (nodes, t) =>
        ⟨.ofNodes nodes, t.dependencies, t.resolutions⟩ := by
    have hsame : h.absolute path = h.absolute l.path := by
      rw [Host.absolute_path hl, Host.absolute, hpath]
    rw [← compile_eq_link hl, compile, compile, Option.map_some, Option.map_some, hsame]
  -- All that is known once the files can be read, for both directions.
  have hjoined : (∀ k ∈ l :: older, ∃ nodes, Reads c h k nodes) → ∃ heirs root, ∃ t : Trail,
      List.Forall₂ (Reads c h) (l :: older) (heirs ++ [root]) ∧
      (∀ tree ∈ heirs ++ [root], Plain tree) ∧
      compile c h source (some path) =
        .ok ⟨.ofNodes (joined root heirs), t.dependencies, t.resolutions⟩ := by
    intro hreads
    obtain ⟨heirs, root, hall, hplains⟩ := trees_of_reads hreads hplain
    obtain ⟨t, hlink⟩ := link_of_reads [l] (t := .empty) hcwd hlineage
      (List.forall_mem_singleton.mpr hl) hdistinct htext hall fun tree htree => (hplains tree htree).apart
    rw [List.map_singleton] at hlink
    exact ⟨heirs, root, t, hall, hplains, by rw [hcompile, hlink]; rfl⟩
  have hreads : (∃ r, compile c h source (some path) = .ok r) →
      ∀ k ∈ l :: older, ∃ nodes, Reads c h k nodes := by
    rintro ⟨r, hr⟩
    rw [hcompile] at hr
    cases hlink : (link c h [l.path] source (some l.path)).run .empty with
    | error failure =>
      rw [hlink] at hr
      cases hr
    | ok result => exact reads_of_link hlineage htext hlink
  refine ⟨⟨hreads, fun hall => ?_⟩, fun r hr => ?_⟩
  · obtain ⟨heirs, root, t, -, -, hok⟩ := hjoined hall
    exact ⟨_, hok⟩
  · obtain ⟨heirs, root, t, hall, hplains, hok⟩ := hjoined (hreads ⟨r, hr⟩)
    obtain rfl := Except.ok.inj (hr.symm.trans hok)
    have hroot : Unnested root := (hplains root (by simp)).unnested
    have hheirs : ∀ tree ∈ heirs, Unnested tree := fun tree htree =>
      (hplains tree (List.mem_append_left _ htree)).unnested
    refine ⟨heirs, root, hall, ?_, ?_⟩
    · rw [joined_eq hroot hheirs]
    · change (standingsOf false (joined root heirs)).map (·.name) = _
      rw [standingsOf_joined hroot hheirs, List.map_map]
      rfl

private def oldestText : String :=
  "\x7b% block a %\x7dA\x7b% endblock %\x7d\x7b% if x %\x7d\x7b% block b %\x7dB\x7b% endblock %\x7d\x7b% endif %\x7d"

private def middleText : String :=
  "\x7b% extends 'oldest' %\x7d\x7b% block a %\x7d[\x7b% parent %\x7d\x7b% parent %\x7d]\x7b% endblock %\x7d" ++
    "\x7b% block c %\x7dC\x7b% endblock %\x7d"

private def youngestText : String :=
  "\x7b% extends 'middle' %\x7d\x7b% if y %\x7d\x7b% block a %\x7d(\x7b% parent %\x7d)\x7b% endblock %\x7d\x7b% endif %\x7d" ++
    "\x7b% block b %\x7db\x7b% endblock %\x7d\x7b% block b %\x7dsecond\x7b% endblock %\x7d"

-- A page that extends another one, which extends a third one.
private def lineageShelf : Host := shelf
  [(shelfPlace "oldest.html", .file oldestText.toUTF8 ⟨1, 0⟩),
   (shelfPlace "middle.html", .file middleText.toUTF8 ⟨1, 0⟩),
   (shelfPlace "youngest.html", .file youngestText.toUTF8 ⟨1, 0⟩)]

-- What a text says of its base, its includes and the blocks inside its blocks.
private def ancestry (nodes : List Node) : Option (Option String) × List String × Bool :=
  ((base? none nodes).toOption, includesOf nodes,
    (standingsOf false nodes).all fun b => blockCountOf b.body == 0)

private theorem plain_of_ancestry (text : String) (base : Option String) (htext : h.textAt l = .ok text)
    (hread : (readSource c text).map ancestry = .ok (some base, [], true)) :
    (∃ nodes, Reads c h l nodes) ∧
      ∀ nodes, Reads c h l nodes → base? none nodes = .ok base ∧ Plain nodes := by
  obtain ⟨nodes, hnodes, -⟩ := map_eq_ok hread
  refine ⟨⟨nodes, text, htext, hnodes⟩, fun nodes hown => ?_⟩
  obtain ⟨own, htext', hnodes⟩ := hown
  obtain rfl := Except.ok.inj (htext.symm.trans htext')
  rw [hnodes] at hread
  have hfacts : ancestry nodes = (some base, [], true) := Except.ok.inj hread
  simp only [ancestry, Prod.mk.injEq, List.all_eq_true, beq_iff_eq] at hfacts
  obtain ⟨hbase, hincludes, hunnested⟩ := hfacts
  refine ⟨?_, hunnested, hincludes⟩
  cases hfound : base? none nodes with
  | error e =>
    rw [hfound] at hbase
    cases hbase
  | ok found =>
    rw [hfound] at hbase
    cases hbase
    rfl

theorem compile_lineage_shelf : ∃ r,
    compile shelfCompiler lineageShelf youngestText (some (shelfPlace "youngest.html").path) = .ok r ∧
      ∃ heirs root,
        List.Forall₂ (Reads shelfCompiler lineageShelf)
          [shelfPlace "youngest.html", shelfPlace "middle.html", shelfPlace "oldest.html"]
          (heirs ++ [root]) ∧
        r.program = .ofNodes (rebodyOf (fun name body => some (inherited name body heirs)) root) ∧
        (standingsOf false r.program.nodes).map (·.name) = (standingsOf false root).map (·.name) := by
  have hyoungest : lineageShelf.textAt (shelfPlace "youngest.html") = .ok youngestText := by decide +kernel
  have hlast := plain_of_ancestry (c := shelfCompiler) youngestText (some "middle") hyoungest
    (by decide +kernel)
  have hheir := plain_of_ancestry (c := shelfCompiler) (h := lineageShelf) (l := shelfPlace "middle.html")
    middleText (some "oldest") (by decide +kernel) (by decide +kernel)
  have hroot := plain_of_ancestry (c := shelfCompiler) (h := lineageShelf) (l := shelfPlace "oldest.html")
    oldestText none (by decide +kernel) (by decide +kernel)
  have hlineage : Lineage shelfCompiler lineageShelf
      [shelfPlace "youngest.html", shelfPlace "middle.html", shelfPlace "oldest.html"] :=
    .heir (fun nodes hnodes => ⟨"middle", (hlast.2 nodes hnodes).1, by decide +kernel⟩) <|
      .heir (fun nodes hnodes => ⟨"oldest", (hheir.2 nodes hnodes).1, by decide +kernel⟩) <|
        .root fun nodes hnodes => (hroot.2 nodes hnodes).1
  have hplain : ∀ k ∈ [shelfPlace "youngest.html", shelfPlace "middle.html", shelfPlace "oldest.html"],
      (∃ nodes, Reads shelfCompiler lineageShelf k nodes) ∧
        ∀ nodes, Reads shelfCompiler lineageShelf k nodes → Plain nodes := by
    simp only [List.forall_mem_cons, List.not_mem_nil, false_imp_iff, implies_true, and_true]
    exact ⟨hlast.imp_right fun hplain nodes hnodes => (hplain nodes hnodes).2,
      hheir.imp_right fun hplain nodes hnodes => (hplain nodes hnodes).2,
      hroot.imp_right fun hplain nodes hnodes => (hplain nodes hnodes).2⟩
  have hcompiled := compile_lineage shelfCompiler lineageShelf youngestText (shelfPlace "youngest.html").path
    (shelfPlace "youngest.html") [shelfPlace "middle.html", shelfPlace "oldest.html"] (by decide)
    (by decide +kernel) hyoungest hlineage (by decide) fun k hk => (hplain k hk).2
  obtain ⟨r, hr⟩ := hcompiled.1.mpr fun k hk => (hplain k hk).1
  exact ⟨r, hr, hcompiled.2 r hr⟩

end TemplateEngine.Compile
