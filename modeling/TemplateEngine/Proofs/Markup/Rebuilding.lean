import TemplateEngine.Proofs.Markup.Printing

-- Reading the print of a tree builds the tree again, whatever lines its pieces stand on.
namespace TemplateEngine.Markup

mutual

-- A node without the lines it keeps.
def lineless : Node → Node
  | .choice branches none => .choice (linelessBranches branches) none
  | .choice branches (some body) => .choice (linelessBranches branches) (some (linelessAll body))
  | .loop kind header body => .loop kind header (linelessAll body)
  | .block name body => .block name (linelessAll body)
  | .extending name _ => .extending name 0
  | .including name _ => .including name 0
  | .text content => .text content
  | .echo expr filters escape => .echo expr filters escape
  | .parent => .parent

def linelessAll : List Node → List Node
  | [] => []
  | node :: nodes => lineless node :: linelessAll nodes

def linelessBranches : List (Branch Node) → List (Branch Node)
  | [] => []
  | ⟨condition, body⟩ :: branches => ⟨condition, linelessAll body⟩ :: linelessBranches branches

end

theorem linelessAll_append (xs ys : List Node) :
    linelessAll (xs ++ ys) = linelessAll xs ++ linelessAll ys := by
  induction xs with
  | nil => rfl
  | cons node xs ih => simp [linelessAll, ih]

theorem linelessBranches_append (xs ys : List (Branch Node)) :
    linelessBranches (xs ++ ys) = linelessBranches xs ++ linelessBranches ys := by
  induction xs with
  | nil => rfl
  | cons branch xs ih => simp [linelessBranches, ih]

mutual

-- Every choice in a tree has a branch.
def Branched : Node → Prop
  | .choice branches none => branches ≠ [] ∧ BranchedBranches branches
  | .choice branches (some body) => branches ≠ [] ∧ BranchedBranches branches ∧ BranchedAll body
  | .loop _ _ body | .block _ body => BranchedAll body
  | .text _ | .echo _ _ _ | .parent | .extending _ _ | .including _ _ => True

def BranchedAll : List Node → Prop
  | [] => True
  | node :: nodes => Branched node ∧ BranchedAll nodes

def BranchedBranches : List (Branch Node) → Prop
  | [] => True
  | ⟨_, body⟩ :: branches => BranchedAll body ∧ BranchedBranches branches

end

-- Taking what shows some pieces leads to a builder of the given kind, whatever lines it stands on.
def Rebuilds (pieces : List Piece) (b : Builder) (Q : Builder → Prop) : Prop :=
  ∀ placed : List Placed, List.Forall₂ Placed.Shows placed pieces →
    ∃ b', placed.foldlM Builder.take b = .ok b' ∧ Q b'

theorem Rebuilds.nil {b : Builder} {Q : Builder → Prop} (h : Q b) : Rebuilds [] b Q := by
  intro placed hplaced
  obtain rfl := List.forall₂_nil_right_iff.mp hplaced
  exact ⟨b, rfl, h⟩

theorem Rebuilds.cons {piece : Piece} {pieces : List Piece} {b : Builder} {Q : Builder → Prop}
    (h : ∀ line, ∃ b', b.accept line piece = .ok b' ∧ Rebuilds pieces b' Q) :
    Rebuilds (piece :: pieces) b Q := by
  intro placed hplaced
  obtain ⟨p, others, hp, hothers, rfl⟩ := List.forall₂_cons_right_iff.mp hplaced
  obtain ⟨next, hnext, hrest⟩ := h p.line
  obtain ⟨b', hrun, hQ⟩ := hrest others hothers
  refine ⟨b', ?_, hQ⟩
  rw [List.foldlM_cons, Builder.take_of_shows hp hnext]
  exact hrun

theorem Rebuilds.append {xs ys : List Piece} {b : Builder} {P Q : Builder → Prop} (h : Rebuilds xs b P)
    (h' : ∀ b', P b' → Rebuilds ys b' Q) : Rebuilds (xs ++ ys) b Q := by
  intro placed hplaced
  have hfront := List.forall₂_take_append placed xs ys hplaced
  have hback := List.forall₂_drop_append placed xs ys hplaced
  obtain ⟨next, hnext, hP⟩ := h _ hfront
  obtain ⟨b', hrun, hQ⟩ := h' next hP _ hback
  refine ⟨b', ?_, hQ⟩
  rw [← List.take_append_drop xs.length placed, List.foldlM_append, hnext]
  exact hrun

theorem Rebuilds.mono {pieces : List Piece} {b : Builder} {P Q : Builder → Prop} (h : Rebuilds pieces b P)
    (hPQ : ∀ b', P b' → Q b') : Rebuilds pieces b Q := by
  intro placed hplaced
  obtain ⟨b', hrun, hP⟩ := h placed hplaced
  exact ⟨b', hrun, hPQ b' hP⟩

theorem Rebuilds.one {piece : Piece} {b : Builder} {Q : Builder → Prop}
    (h : ∀ line, ∃ b', b.accept line piece = .ok b' ∧ Q b') : Rebuilds [piece] b Q :=
  .cons fun line => (h line).imp fun _ hb' => ⟨hb'.1, .nil hb'.2⟩

-- A builder that has one node more, or some more, as far as lines do not count.
def Gains (b : Builder) (nodes : List Node) (b' : Builder) : Prop :=
  ∃ read, linelessAll read = linelessAll nodes ∧ b' = ⟨b.nodes ++ read, b.opened⟩

-- A builder inside a choice: what stands before and around it, and its branches so far.
def Divides (before : List Node) (outer : List (List Node × Opened)) (branches : List (Branch Node))
    (b : Builder) : Prop :=
  ∃ line done condition, b.opened = (before, .branch line done condition) :: outer ∧
    linelessBranches (done ++ [⟨condition, b.nodes⟩]) = linelessBranches branches

mutual

theorem walk_rebuilds : ∀ node : Node, Branched node → ∀ b : Builder,
    Rebuilds (walk node) b (Gains b [node])
  | .text content, _, b => .one fun line => ⟨_, rfl, _, rfl, rfl⟩
  | .echo expr filters escape, _, b => .one fun line => ⟨_, rfl, _, rfl, rfl⟩
  | .parent, _, b => .one fun line => ⟨_, rfl, _, rfl, rfl⟩
  | .extending name _, _, b => .one fun line => ⟨_, rfl, [.extending name line], rfl, rfl⟩
  | .including name _, _, b => .one fun line => ⟨_, rfl, [.including name line], rfl, rfl⟩
  | .loop kind header body, h, b => by
    refine .cons fun line => ⟨_, rfl, ?_⟩
    refine (walkAll_rebuilds body h _).append ?_
    rintro _ ⟨read, hread, rfl⟩
    refine .one fun last => ⟨_, if_pos rfl, [.loop kind header read], ?_, rfl⟩
    simp [linelessAll, lineless, hread]
  | .block name body, h, b => by
    refine .cons fun line => ⟨_, rfl, ?_⟩
    refine (walkAll_rebuilds body h _).append ?_
    rintro _ ⟨read, hread, rfl⟩
    refine .one fun last => ⟨_, rfl, [.block name read], ?_, rfl⟩
    simp [linelessAll, lineless, hread]
  | .choice branches none, h, b => by
    refine (walkBranches_rebuilds branches h.1 h.2 .openIf b fun line _ => ⟨line, rfl⟩).append ?_
    rintro b' ⟨line, done, condition, hopened, hbranches⟩
    have hclose (last : Nat) : b'.accept last (.directive .endIf) =
        .ok ⟨b.nodes ++ [.choice (done ++ [⟨condition, b'.nodes⟩]) none], b.opened⟩ := by
      simp [Builder.accept, Builder.direct, Builder.close, hopened]
    refine .one fun last => ⟨_, hclose last, _, ?_, rfl⟩
    simpa [linelessAll, lineless] using hbranches
  | .choice branches (some body), h, b => by
    refine (walkBranches_rebuilds branches h.1 h.2.1 .openIf b fun line _ => ⟨line, rfl⟩).append ?_
    rintro b' ⟨line, done, condition, hopened, hbranches⟩
    have hdivide (middle : Nat) : b'.accept middle (.directive .openElse) =
        .ok ⟨[], (b.nodes, .otherwise middle (done ++ [⟨condition, b'.nodes⟩])) :: b.opened⟩ := by
      simp [Builder.accept, Builder.direct, Builder.divide, hopened]
    refine .cons fun middle => ⟨_, hdivide middle, ?_⟩
    refine (walkAll_rebuilds body h.2.2 _).append ?_
    rintro _ ⟨read, hread, rfl⟩
    refine .one fun last => ⟨_, rfl, _, ?_, rfl⟩
    simpa [linelessAll, lineless, hread] using hbranches

theorem walkAll_rebuilds : ∀ nodes : List Node, BranchedAll nodes → ∀ b : Builder,
    Rebuilds (walkAll nodes) b (Gains b nodes)
  | [], _, b => .nil ⟨[], rfl, by simp⟩
  | node :: nodes, h, b => by
    refine (walk_rebuilds node h.1 b).append ?_
    rintro _ ⟨read, hread, rfl⟩
    refine (walkAll_rebuilds nodes h.2 _).mono ?_
    rintro _ ⟨more, hmore, rfl⟩
    refine ⟨read ++ more, ?_, by simp⟩
    simp [linelessAll_append, hread, hmore, linelessAll]

theorem walkBranches_rebuilds : ∀ branches : List (Branch Node), branches ≠ [] →
    BranchedBranches branches → ∀ (opening : String → Directive) (b : Builder) {before : List Node}
      {done : List (Branch Node)} {outer : List (List Node × Opened)},
      (∀ line condition, ∃ first, b.accept line (.directive (opening condition)) =
        .ok ⟨[], (before, .branch first done condition) :: outer⟩) →
      Rebuilds (walkBranches opening branches) b (Divides before outer (done ++ branches))
  | [], hne, _, _, _, _, _, _, _ => absurd rfl hne
  | ⟨condition, body⟩ :: more, _, h, opening, b, before, done, outer, hopening => by
    refine .cons fun line => ?_
    obtain ⟨first, haccept⟩ := hopening line condition
    refine ⟨_, haccept, (walkAll_rebuilds body h.1 _).append ?_⟩
    rintro _ ⟨read, hread, rfl⟩
    by_cases hmore : more = []
    · subst hmore
      refine .nil ⟨first, done, condition, rfl, ?_⟩
      simp [linelessBranches_append, linelessBranches, hread]
    · refine (walkBranches_rebuilds more hmore h.2 .elseIf _ fun line _ => ⟨first, rfl⟩).mono ?_
      rintro b' ⟨line, done', condition', hopened, hbranches⟩
      refine ⟨line, done', condition', hopened, hbranches.trans ?_⟩
      simp [linelessBranches_append, linelessBranches, hread]

end

structure Printable (nodes : List Node) : Prop where
  branched : BranchedAll nodes
  pieces : ∀ piece ∈ walkAll nodes, piece.Printable

theorem shows_of_map_eq {placed : List Placed} {pieces : List Piece}
    (h : placed.map Placed.segment = pieces.map Piece.segment)
    (hpieces : ∀ piece ∈ pieces, piece.Printable) : List.Forall₂ Placed.Shows placed pieces := by
  induction pieces generalizing placed with
  | nil =>
    obtain rfl : placed = [] := by simpa using h
    exact .nil
  | cons piece pieces ih =>
    obtain ⟨hpiece, hpieces⟩ := List.forall_mem_cons.mp hpieces
    rw [List.map_cons, List.map_eq_cons_iff] at h
    obtain ⟨p, others, rfl, hp, hothers⟩ := h
    refine .cons ?_ (ih hothers hpieces)
    unfold Placed.Shows
    rw [hp]
    exact Piece.segment_shows hpiece

-- Reading a print gives the tree again, but for the lines it keeps.
theorem read_printed {nodes : List Node} (h : Printable nodes) :
    (read (printed nodes)).map linelessAll = .ok (linelessAll nodes) := by
  have hsegments : ∀ s ∈ (walkAll nodes).map Piece.segment, s.WellFormed ∧ s.IsSpan :=
    List.forall_mem_map.mpr fun piece hpiece => Piece.segment_wellFormed (h.pieces piece hpiece)
  obtain ⟨placed, hplaced, hmap⟩ := segments_written hsegments 1
  have hrebuilds := walkAll_rebuilds nodes h.branched Builder.start
  obtain ⟨_, hrun, again, hagain, rfl⟩ := hrebuilds placed (shows_of_map_eq hmap h.pieces)
  have hbuild : build placed = .ok again := by
    unfold build
    rw [hrun]
    rfl
  have hread : read (printed nodes) = .ok again := by
    unfold read printed
    rw [hplaced]
    exact hbuild
  rw [hread, ← hagain]
  rfl

def shelfPage : List Node :=
  [.extending "layouts/base" 4,
    .block "main"
      [.loop .forIn "book in books"
        [.choice
          [⟨"book.price > 10 and book.rating", [.echo "book.title" ["upper", "raw"] true]⟩,
            ⟨"book.note == '%\x7d'", [.including "shelf/note" 9]⟩]
          (some [.text "\x7b\x7b none \x7d\x7d"])],
      .parent]]

theorem read_printed_shelf :
    Printable shelfPage ∧ (read (printed shelfPage)).map linelessAll = .ok (linelessAll shelfPage) := by
  have hprintable : Printable shelfPage := by
    refine ⟨by simp [shelfPage, BranchedAll, Branched, BranchedBranches], ?_⟩
    decide +kernel
  exact ⟨hprintable, read_printed hprintable⟩

example : printed [.loop .forIn "x in xs" [.echo "x" ["upper", "raw"] true, .text ", "]] =
    ("\x7b% for x in xs %\x7d\x7b\x7b x | upper | raw \x7d\x7d" ++
      "\x7b% literal %\x7d, \x7b% endliteral %\x7d\x7b% endfor %\x7d").toList := by
  decide +kernel

end TemplateEngine.Markup
