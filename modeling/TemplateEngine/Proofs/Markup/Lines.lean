import TemplateEngine.Proofs.Markup.Walk

-- Every line that a tree keeps, and every line that an error of the reader gives, is the line of the
-- construct it concerns: one more than the newlines before it.
namespace TemplateEngine.Markup

def Shown (segs : List Segment) (pieces : List Piece) : Prop :=
  List.Forall₂ Segment.Shows (segs.filter Segment.isShown) pieces

-- A source shows a piece behind a front, some pieces in the front, and more behind the piece.
inductive ShownAt (source : List Char) : List Char → List Piece → Piece → List Piece → Prop
  | intro {before after : List Segment} {s : Segment} {pieces more : List Piece} {piece : Piece}
      (hcut : Cut source (before ++ s :: after) []) (hbefore : Shown before pieces) (hs : s.Shows piece)
      (hafter : Shown after more) : ShownAt source (written before) pieces piece more

-- Every line in some nodes is that of the segment which shows the piece.
def LinedBy (source : List Char) (nodes : List Node) : Prop :=
  ∀ before x after, linedAll nodes = before ++ x :: after → ∀ line ∈ x.line,
    ∃ front, ShownAt source front (before.map Lined.piece) x.piece (after.map Lined.piece) ∧
      line = 1 + Text.newlines front

-- A span that cannot be read.
def Segment.Misread (s : Segment) (fault : Fault) : Prop :=
  match s with
  | echo body => readEcho body = .error fault
  | tag body => readDirective body = .error fault
  | _ => False

-- What can stand behind the directive that opens a construct, or its last part, while it is open.
inductive Within : Directive → List Piece → Prop
  | branches (condition : String) (body : List Node) (more : List (Branch Node)) :
      Within (.openIf condition) (walkAll body ++ walkBranches .elseIf more)
  | otherwise (body : List Node) : Within .openElse (walkAll body)
  | loop (kind : LoopKind) (header : String) (body : List Node) :
      Within (.openLoop kind header) (walkAll body)
  | block (name : String) (body : List Node) : Within (.openBlock name) (walkAll body)

-- The innermost construct that is open behind some pieces, by the directive that opened it.
inductive Innermost : List Piece → Option Directive → Prop
  | outside (nodes : List Node) : Innermost (walkAll nodes) none
  | inside {opening : Directive} {pieces : List Piece} (outside : List Piece)
      (hpieces : Within opening pieces) :
      Innermost (outside ++ .directive opening :: pieces) (some opening)

namespace Innermost

variable {pieces : List Piece} {innermost : Option Directive} {opening : Directive}

theorem behind (h : Innermost pieces (some opening)) (front : List Piece) :
    Innermost (front ++ pieces) (some opening) := by
  cases h with
  | inside outside hpieces =>
    rw [← List.append_assoc]
    exact .inside (front ++ outside) hpieces

theorem cons (h : Innermost pieces innermost) (node : Node) : Innermost (Markup.walk node ++ pieces) innermost := by
  cases h with
  | outside nodes => exact .outside (node :: nodes)
  | inside outside hpieces => exact behind (.inside outside hpieces) _

theorem enter (h : Innermost pieces innermost) (hopening : ∀ nodes, Within opening (walkAll nodes)) :
    ∃ nearest, Innermost (.directive opening :: pieces) (some nearest) := by
  cases h with
  | outside nodes => exact ⟨opening, .inside [] (hopening nodes)⟩
  | inside outside hpieces => exact ⟨_, .inside (.directive opening :: outside) hpieces⟩

end Innermost

namespace Directive

def unclosed? : Directive → Option Fault
  | openIf _ => some .unclosedIf
  | openElse => some .unclosedElse
  | openLoop kind _ => some (.unclosedLoop kind)
  | openBlock name => some (.unclosedBlock name)
  | _ => none

-- Whether a directive only stands inside a construct.
def isInner : Directive → Bool
  | elseIf _ | openElse | endIf | endLoop _ | endBlock => true
  | openIf _ | openLoop _ _ | openBlock _ | parent | extending _ | including _ => false

-- Whether a directive divides or closes what another one opened.
def admits : Directive → Directive → Bool
  | openIf _, elseIf _ | openIf _, openElse | openIf _, endIf | openElse, endIf => true
  | openLoop kind _, endLoop ended => kind = ended
  | openBlock _, endBlock => true
  | _, _ => false

end Directive

-- The construct that a fault lies in, by the text before it: before its opening delimiter, and for a
-- literal section before the end of its tag.
inductive Concerns (source : List Char) : Fault → List Char → Prop
  | unclosedSpan {segs : List Segment} {left lead : List Char} {fault : Fault} (hcut : Cut source segs left)
      (hstuck : Stuck left lead fault) : Concerns source fault (written segs ++ lead)
  | misread {before after : List Segment} {s : Segment} {fault : Fault}
      (hcut : Cut source (before ++ s :: after) []) (hs : s.Misread fault) :
      Concerns source fault (written before)
  | unexpected {before after : List Segment} {body : List Char} {d : Directive} {pieces : List Piece}
      {innermost : Option Directive} (hcut : Cut source (before ++ .tag body :: after) [])
      (hbefore : Shown before pieces) (hbody : d.Spelled body) (hopen : Innermost pieces innermost)
      (hinner : d.isInner = true) (hrefused : ∀ opening ∈ innermost, opening.admits d = false) :
      Concerns source (.unexpected d.keyword) (written before)
  | unclosed {front : List Char} {before after : List Piece} {opening : Directive} {fault : Fault}
      (hopening : ShownAt source front before (.directive opening) after) (hafter : Within opening after)
      (hfault : opening.unclosed? = some fault) : Concerns source fault front

theorem Cut.brace {source left : List Char} {before after : List Segment} {s : Segment}
    (h : Cut source (before ++ s :: after) left) (hs : ¬s.IsText) :
    ∃ back, source = Markup.written before ++ '{' :: back := by
  obtain ⟨d, body, hopener⟩ := s.exists_opener hs
  refine ⟨d.second :: (body ++ (Markup.written after ++ left)), ?_⟩
  rw [h.written, written_append, written_cons, hopener, Delimiter.toList_opener]
  simp

theorem ShownAt.brace {source front : List Char} {before after : List Piece} {d : Directive}
    (h : ShownAt source front before (.directive d) after) : ∃ back, source = front ++ '{' :: back := by
  cases h with
  | @intro _ _ s _ _ _ hcut _ hs =>
    refine hcut.brace ?_
    cases s with
    | text => cases hs
    | _ => exact id

-- What is blamed begins with a brace. A literal section is blamed at the one that ends its tag.
theorem Concerns.brace {source front : List Char} {fault : Fault} (h : Concerns source fault front) :
    (∃ back, source = front ++ '{' :: back) ∨
      fault = .unclosedLiteral ∧ ∃ lead back, front = lead ++ ['}'] ∧ source = front ++ back := by
  cases h with
  | @unclosedSpan segs left lead fault hcut hstuck =>
    have hwritten := hcut.written
    cases hstuck with
    | @delimiter d rest _ =>
      refine .inl ⟨d.second :: rest, ?_⟩
      rw [hwritten, Delimiter.toList_opener]
      simp
    | @literal body rest _ _ _ =>
      refine .inr ⟨rfl, written segs ++ '{' :: '%' :: (body ++ ['%']), rest, ?_, ?_⟩
      · simp [Segment.written]
      · rw [hwritten, List.append_assoc]
  | @misread _ _ s _ hcut hs =>
    refine .inl (hcut.brace ?_)
    cases s with
    | text => exact hs.elim
    | _ => exact id
  | unexpected hcut => exact .inl (hcut.brace id)
  | unclosed hopening => exact .inl hopening.brace

theorem exists_of_forall₂_filter {α β : Type} {R : α → β → Prop} {p : α → Bool} {xs : List α}
    {before after : List β} {y : β} (h : List.Forall₂ R (xs.filter p) (before ++ y :: after)) :
    ∃ front x back, xs = front ++ x :: back ∧ List.Forall₂ R (front.filter p) before ∧ R x y ∧
      List.Forall₂ R (back.filter p) after := by
  induction xs generalizing before with
  | nil => simpa using h.length_eq
  | cons x xs ih =>
    by_cases hx : p x = true
    · rw [List.filter_cons_of_pos hx] at h
      cases before with
      | nil =>
        cases h with
        | cons hxy hrest => exact ⟨[], x, xs, rfl, .nil, hxy, hrest⟩
      | cons z before =>
        cases h with
        | cons hxz hrest =>
          obtain ⟨front, x', back, rfl, hfront, hxy, hback⟩ := ih hrest
          refine ⟨x :: front, x', back, rfl, ?_, hxy, hback⟩
          rw [List.filter_cons_of_pos hx]
          exact .cons hxz hfront
    · rw [List.filter_cons_of_neg hx] at h
      obtain ⟨front, x', back, rfl, hfront, hxy, hback⟩ := ih h
      exact ⟨x :: front, x', back, rfl, by simpa [hx] using hfront, hxy, hback⟩

-- A segment is placed behind all that is written before it.
theorem line_of_located {line : Nat} {segs : List Segment} {before after : List Placed} {p : Placed}
    (h : located line segs = before ++ p :: after) :
    segs = before.map Placed.segment ++ p.segment :: after.map Placed.segment ∧
      p.line = line + Text.newlines (written (before.map Placed.segment)) := by
  have hsegs := map_located line segs
  rw [h] at hsegs
  refine ⟨by simpa using hsegs.symm, ?_⟩
  clear hsegs
  induction before generalizing line segs with
  | nil =>
    cases segs with
    | nil => cases h
    | cons s segs =>
      obtain ⟨rfl, -⟩ := List.cons.inj h
      rfl
  | cons q before ih =>
    cases segs with
    | nil => cases h
    | cons s segs =>
      obtain ⟨rfl, hrest⟩ := List.cons.inj h
      rw [ih hrest, List.map_cons, written_cons, Text.newlines_append, Nat.add_assoc]

-- A segment shows a piece, and stands on its line if one is kept.
def Placed.Stands (p : Placed) (x : Lined) : Prop := p.segment.Shows x.piece ∧ ∀ line ∈ x.line, line = p.line

theorem Forgets.stands {xs ys : List Lined} {placed : List Placed} (h : Forgets xs ys)
    (hys : List.Forall₂ Placed.Notes placed ys) : List.Forall₂ Placed.Stands placed xs := by
  induction h generalizing placed with
  | nil => cases hys with | nil => exact .nil
  | cons hxy _ ih =>
    cases hys with
    | cons hnotes hrest =>
      obtain ⟨hpiece, hline⟩ := hxy
      refine .cons ⟨hpiece ▸ hnotes.1, fun line hx => ?_⟩ (ih hrest)
      exact (Option.some.inj (hnotes.2.symm.trans (hline line hx))).symm

theorem Builder.foldlM_take_stands {placed : List Placed} {b : Builder}
    (hplaced : ∀ p ∈ placed, p.segment.WellFormed) (h : placed.foldlM Builder.take .start = .ok b) :
    List.Forall₂ Placed.Stands (placed.filter (·.segment.isShown)) b.lined := by
  obtain ⟨more, hforgets, hnotes⟩ := foldlM_take_lined hplaced h
  exact Forgets.stands hforgets hnotes

theorem shown_of_stands {placed : List Placed} {xs : List Lined}
    (h : List.Forall₂ Placed.Stands (placed.filter (·.segment.isShown)) xs) :
    Shown (placed.map Placed.segment) (xs.map Lined.piece) := by
  unfold Shown
  rw [List.filter_map, List.forall₂_map_left_iff, List.forall₂_map_right_iff]
  exact h.imp fun _ _ h => h.1

-- Where a piece of a builder stands in the source it was read from.
theorem shownAt_of_stands {source : List Char} {segs : List Segment} (hcut : Cut source segs [])
    {before after : List Lined} {x : Lined}
    (h : List.Forall₂ Placed.Stands ((located 1 segs).filter (·.segment.isShown)) (before ++ x :: after)) :
    ∃ front, ShownAt source front (before.map Lined.piece) x.piece (after.map Lined.piece) ∧
      ∀ line ∈ x.line, line = 1 + Text.newlines front := by
  obtain ⟨front, p, back, hplaced, hfront, hp, hback⟩ := exists_of_forall₂_filter h
  obtain ⟨rfl, hline⟩ := line_of_located hplaced
  refine ⟨_, .intro hcut (shown_of_stands hfront) hp.1 (shown_of_stands hback), fun line hx => ?_⟩
  exact (hp.2 line hx).trans hline

namespace Builder

theorem finish_lined {b : Builder} {nodes : List Node} (h : b.finish = .ok nodes) :
    b.lined = linedAll nodes := by
  unfold finish at h
  split at h
  · next hopened =>
    cases h
    simp [Builder.lined, hopened, linedOpened]
  · cases h

end Builder

-- The directive that opened a construct, or its last part.
def Opened.opening : Opened → Directive
  | .branch _ before condition => .openIf ((before.head?.map Branch.condition).getD condition)
  | .otherwise _ _ => .openElse
  | .loop _ kind header => .openLoop kind header
  | .block _ name => .openBlock name

theorem Opened.unclosed_opening (construct : Opened) :
    construct.opening.unclosed? = some construct.unclosed.fault := by
  cases construct <;> rfl

namespace Builder

-- The tag that opened the innermost construct keeps its line as long as the construct is open.
theorem lined_opened {b : Builder} {before : List Node} {construct : Opened}
    {outer : List (List Node × Opened)} (hopened : b.opened = (before, construct) :: outer) :
    ∃ outside inside,
      b.lined = outside ++ ⟨.directive construct.opening, some construct.unclosed.line⟩ :: inside ∧
        Within construct.opening (inside.map Lined.piece) := by
  have hlined : b.lined = linedOpened outer ++ linedAll before ++ (construct.lined ++ linedAll b.nodes) := by
    simp [Builder.lined, hopened, linedOpened]
  cases construct with
  | branch line done condition =>
    cases done with
    | nil =>
      refine ⟨_, _, hlined, ?_⟩
      simpa [linedBranches, linedAll, map_linedAll, walkBranches, Opened.opening] using
        Within.branches condition b.nodes []
    | cons first done =>
      refine ⟨_, _, hlined, ?_⟩
      have hbranches := linedBranches_append .elseIf none done condition b.nodes []
      have hinside := Within.branches first.condition first.body (done ++ [⟨condition, b.nodes⟩])
      rw [← map_linedAll, ← map_linedBranches .elseIf none, hbranches] at hinside
      simpa [linedBranches, Opened.opening] using hinside
  | otherwise line branches =>
    refine ⟨linedOpened outer ++ linedAll before ++ linedBranches .openIf none branches, linedAll b.nodes,
      by simp [hlined, Opened.lined, Opened.opening, Opened.unclosed], ?_⟩
    rw [map_linedAll]
    exact .otherwise b.nodes
  | loop line kind header =>
    refine ⟨_, _, hlined, ?_⟩
    have hinside := Within.loop kind header b.nodes
    rwa [← map_linedAll] at hinside
  | block line name =>
    refine ⟨_, _, hlined, ?_⟩
    have hinside := Within.block name b.nodes
    rwa [← map_linedAll] at hinside

def innermost (b : Builder) : Option Directive := b.opened.head?.map fun (_, construct) => construct.opening

theorem innermost_walk (b : Builder) : Innermost b.walk b.innermost := by
  unfold Builder.innermost
  cases hopened : b.opened with
  | nil =>
    have hwalk : b.walk = walkAll b.nodes := by
      simp [Builder.walk, Builder.lined, hopened, linedOpened, map_linedAll]
    rw [hwalk]
    exact .outside b.nodes
  | cons entry outer =>
    obtain ⟨outside, inside, hlined, hwithin⟩ := lined_opened hopened
    have hwalk : b.walk = outside.map Lined.piece ++ .directive entry.2.opening :: inside.map Lined.piece := by
      simp [Builder.walk, hlined]
    rw [hwalk]
    exact .inside _ hwithin

theorem direct_of_admits {b : Builder} {opening d : Directive} (hopening : opening ∈ b.innermost)
    (h : opening.admits d = true) (line : Nat) : ∃ b', b.direct line d = .ok b' := by
  obtain ⟨⟨before, construct⟩, hhead, rfl⟩ := Option.map_eq_some_iff.mp hopening
  obtain ⟨outer, hopened⟩ := List.head?_eq_some_iff.mp hhead
  cases construct <;> cases d <;>
    simp_all [Opened.opening, Directive.admits, direct, divide, close]

theorem close_eq_error {b : Builder} {d : Directive} {fault : Fault} (h : b.close d = .error fault) :
    fault = .unexpected d.keyword := by
  unfold close at h
  split at h
  all_goals try split at h
  all_goals
    cases h
    try rfl

-- A directive is refused only where what is open does not admit it.
theorem direct_eq_error {b : Builder} {line : Nat} {d : Directive} {fault : Fault}
    (h : b.direct line d = .error fault) :
    fault = .unexpected d.keyword ∧ d.isInner = true ∧
      ∀ opening ∈ b.innermost, opening.admits d = false := by
  have hrefused : ∀ opening ∈ b.innermost, opening.admits d = false := by
    intro opening hopening
    rw [Bool.eq_false_iff]
    intro hadmits
    obtain ⟨b', hb'⟩ := direct_of_admits hopening hadmits line
    rw [h] at hb'
    cases hb'
  cases d with
  | openIf _ | openLoop _ _ | openBlock _ | parent | extending _ | including _ => cases h
  | elseIf _ | endIf | endLoop _ | endBlock => exact ⟨close_eq_error h, rfl, hrefused⟩
  | openElse =>
    refine ⟨?_, rfl, hrefused⟩
    replace h : b.divide line = .error fault := h
    unfold divide at h
    split at h
    · cases h
    · exact (Except.error.inj h).symm

theorem take_eq_error {b : Builder} {p : Placed} {e : Error} (h : b.take p = .error e) :
    e.line = p.line ∧ (p.segment.Misread e.fault ∨
      ∃ body d, p.segment = .tag body ∧ d.Spelled body ∧ e.fault = .unexpected d.keyword ∧
        d.isInner = true ∧ ∀ opening ∈ b.innermost, opening.admits d = false) := by
  obtain ⟨line, segment⟩ := p
  obtain ⟨fault, htake, rfl⟩ := mapError_eq_error h
  refine ⟨rfl, ?_⟩
  cases segment with
  | text | comment | literal => cases htake
  | echo body => exact .inl (map_eq_error htake)
  | tag body =>
    rcases bind_eq_error htake with hbody | ⟨d, hd, hdirect⟩
    · exact .inl hbody
    · obtain ⟨hfault, hinner, hrefused⟩ := direct_eq_error hdirect
      exact .inr ⟨body, d, rfl, readDirective_spelled hd, hfault, hinner, hrefused⟩

end Builder

theorem concerns_of_take {source : List Char} {segs : List Segment} (hcut : Cut source segs [])
    {before after : List Placed} {p : Placed} (hplaced : located 1 segs = before ++ p :: after) {b : Builder}
    (hbefore : Shown (before.map Placed.segment) b.walk) {e : Error} (h : b.take p = .error e) :
    ∃ front, Concerns source e.fault front ∧ e.line = 1 + Text.newlines front := by
  obtain ⟨rfl, hp⟩ := line_of_located hplaced
  obtain ⟨hline, hmisread | ⟨body, d, htag, hbody, hfault, hinner, hrefused⟩⟩ := Builder.take_eq_error h
  · exact ⟨_, .misread hcut hmisread, hline.trans hp⟩
  · rw [htag] at hcut
    rw [hfault]
    exact ⟨_, .unexpected hcut hbefore hbody b.innermost_walk hinner hrefused, hline.trans hp⟩

theorem concerns_of_finish {source : List Char} {segs : List Segment} (hcut : Cut source segs [])
    {b : Builder}
    (hstands : List.Forall₂ Placed.Stands ((located 1 segs).filter (·.segment.isShown)) b.lined) {e : Error}
    (h : b.finish = .error e) : ∃ front, Concerns source e.fault front ∧ e.line = 1 + Text.newlines front := by
  unfold Builder.finish at h
  split at h
  · cases h
  · next before construct outer hopened =>
    cases h
    obtain ⟨outside, inside, hlined, hwithin⟩ := Builder.lined_opened hopened
    rw [hlined] at hstands
    obtain ⟨front, hshown, hline⟩ := shownAt_of_stands hcut hstands
    exact ⟨front, .unclosed hshown hwithin construct.unclosed_opening, hline _ rfl⟩

section Build

variable {source : List Char} {segs : List Segment}

theorem linedBy_of_build (hcut : Cut source segs []) {nodes : List Node}
    (h : build (located 1 segs) = .ok nodes) : LinedBy source nodes := by
  obtain ⟨b, hrun, hfinish⟩ := bind_eq_ok h
  have hstands := Builder.foldlM_take_stands (wellFormed_located hcut.wellFormed 1) hrun
  rw [Builder.finish_lined hfinish] at hstands
  intro before x after hnodes line hline
  rw [hnodes] at hstands
  obtain ⟨front, hshown, hfront⟩ := shownAt_of_stands hcut hstands
  exact ⟨front, hshown, hfront line hline⟩

theorem concerns_of_build (hcut : Cut source segs []) {e : Error}
    (h : build (located 1 segs) = .error e) :
    ∃ front, Concerns source e.fault front ∧ e.line = 1 + Text.newlines front := by
  have hformed := wellFormed_located hcut.wellFormed 1
  rcases bind_eq_error h with hrun | ⟨b, hrun, hfinish⟩
  · obtain ⟨before, p, after, b, hplaced, hbefore, htake⟩ := foldlM_eq_error hrun
    rw [hplaced] at hformed
    have hstands := Builder.foldlM_take_stands (fun q hq => hformed q (List.mem_append_left _ hq)) hbefore
    exact concerns_of_take hcut hplaced (shown_of_stands hstands) htake
  · exact concerns_of_finish hcut (Builder.foldlM_take_stands hformed hrun) hfinish

end Build

theorem linedBy_of_read {source : List Char} {nodes : List Node} (h : read source = .ok nodes) :
    LinedBy source nodes := by
  obtain ⟨_, hsegments, hbuild⟩ := bind_eq_ok h
  obtain ⟨segs, hcut, rfl⟩ := segments_located hsegments
  exact linedBy_of_build hcut hbuild

theorem concerns_of_read {source : List Char} {e : Error} (h : read source = .error e) :
    ∃ front, Concerns source e.fault front ∧ e.line = 1 + Text.newlines front := by
  rcases bind_eq_error h with hsegments | ⟨_, hsegments, hbuild⟩
  · have hsegmented := segments_segmented 1 source
    rw [hsegments] at hsegmented
    cases hsegmented with
    | stuck hcut hstuck => exact ⟨_, .unclosedSpan hcut hstuck, rfl⟩
  · obtain ⟨segs, hcut, rfl⟩ := segments_located hsegments
    exact concerns_of_build hcut hbuild

-- The lines are exact, in the tree as in the errors.
theorem read_lines (source : List Char) :
    match read source with
    | .ok nodes => LinedBy source nodes
    | .error e => ∃ front, Concerns source e.fault front ∧ e.line = 1 + Text.newlines front := by
  cases hread : read source with
  | ok nodes => exact linedBy_of_read hread
  | error e => exact concerns_of_read hread

example : read "a\n\x7b# b\n#\x7d\x7b% include 'c' %\x7d".toList = .ok [.text "a\n", .including "c" 3] := by
  with_unfolding_all rfl

end TemplateEngine.Markup
