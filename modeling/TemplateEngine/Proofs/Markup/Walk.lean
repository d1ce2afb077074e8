import TemplateEngine.Markup.Tree
import TemplateEngine.Proofs.Markup.Cutting
import TemplateEngine.Proofs.Markup.Spelling
import Mathlib.Data.List.Forall2

-- A tree is walked in order, and the directives that open, divide and close its constructs are
-- written back. The walk over the tree of a source meets what the source shows, piece by piece, and
-- the lines that the tree keeps are those of the segments that show the pieces.
namespace TemplateEngine.Markup

inductive Piece where
  | text (content : String)
  | echo (expr : String) (filters : List String) (escape : Bool)
  | directive (d : Directive)

mutual

def walk : Node → List Piece
  | .text content => [.text content]
  | .echo expr filters escape => [.echo expr filters escape]
  | .choice branches none => walkBranches .openIf branches ++ [.directive .endIf]
  | .choice branches (some body) =>
    walkBranches .openIf branches ++ .directive .openElse :: (walkAll body ++ [.directive .endIf])
  | .loop kind header body =>
    .directive (.openLoop kind header) :: (walkAll body ++ [.directive (.endLoop kind)])
  | .block name body => .directive (.openBlock name) :: (walkAll body ++ [.directive .endBlock])
  | .parent => [.directive .parent]
  | .extending name _ => [.directive (.extending name)]
  | .including name _ => [.directive (.including name)]

def walkAll : List Node → List Piece
  | [] => []
  | node :: nodes => walk node ++ walkAll nodes

-- Only the first branch opens the construct.
def walkBranches (opening : String → Directive) : List (Branch Node) → List Piece
  | [] => []
  | ⟨condition, body⟩ :: branches =>
    .directive (opening condition) :: (walkAll body ++ walkBranches .elseIf branches)

end

-- A piece, with the line it stands on where that is kept.
structure Lined where
  piece : Piece
  line : Option Nat

mutual

def lined : Node → List Lined
  | .text content => [⟨.text content, none⟩]
  | .echo expr filters escape => [⟨.echo expr filters escape, none⟩]
  | .choice branches none => linedBranches .openIf none branches ++ [⟨.directive .endIf, none⟩]
  | .choice branches (some body) =>
    linedBranches .openIf none branches ++
      ⟨.directive .openElse, none⟩ :: (linedAll body ++ [⟨.directive .endIf, none⟩])
  | .loop kind header body =>
    ⟨.directive (.openLoop kind header), none⟩ :: (linedAll body ++ [⟨.directive (.endLoop kind), none⟩])
  | .block name body =>
    ⟨.directive (.openBlock name), none⟩ :: (linedAll body ++ [⟨.directive .endBlock, none⟩])
  | .parent => [⟨.directive .parent, none⟩]
  | .extending name line => [⟨.directive (.extending name), some line⟩]
  | .including name line => [⟨.directive (.including name), some line⟩]

def linedAll : List Node → List Lined
  | [] => []
  | node :: nodes => lined node ++ linedAll nodes

-- The line is the one of the directive that opens the construct.
def linedBranches (opening : String → Directive) (line : Option Nat) : List (Branch Node) → List Lined
  | [] => []
  | ⟨condition, body⟩ :: branches =>
    ⟨.directive (opening condition), line⟩ :: (linedAll body ++ linedBranches .elseIf none branches)

end

mutual

theorem map_lined : ∀ node : Node, (lined node).map Lined.piece = walk node
  | .text _ | .echo _ _ _ | .parent | .extending _ _ | .including _ _ => by simp [lined, walk]
  | .choice branches none => by simp [lined, walk, map_linedBranches .openIf none branches]
  | .choice branches (some body) => by
    simp [lined, walk, map_linedBranches .openIf none branches, map_linedAll body]
  | .loop _ _ body | .block _ body => by simp [lined, walk, map_linedAll body]

theorem map_linedAll : ∀ nodes : List Node, (linedAll nodes).map Lined.piece = walkAll nodes
  | [] => rfl
  | node :: nodes => by simp [linedAll, walkAll, map_lined node, map_linedAll nodes]

theorem map_linedBranches (opening : String → Directive) (line : Option Nat) :
    ∀ branches : List (Branch Node),
      (linedBranches opening line branches).map Lined.piece = walkBranches opening branches
  | [] => rfl
  | ⟨_, body⟩ :: branches => by
    simp [linedBranches, walkBranches, map_linedAll body, map_linedBranches .elseIf none branches]

end

theorem linedAll_append (xs ys : List Node) : linedAll (xs ++ ys) = linedAll xs ++ linedAll ys := by
  induction xs with
  | nil => rfl
  | cons node xs ih => simp [linedAll, ih]

theorem linedBranches_append (opening : String → Directive) (line : Option Nat) (done : List (Branch Node))
    (condition : String) (body : List Node) (more : List (Branch Node)) :
    linedBranches opening line (done ++ ⟨condition, body⟩ :: more) =
      linedBranches opening line (done ++ [⟨condition, []⟩]) ++
        (linedAll body ++ linedBranches .elseIf none more) := by
  induction done generalizing opening line with
  | nil => simp [linedBranches, linedAll]
  | cons branch done ih => simp [linedBranches, ih]

-- The pieces that opened a construct and divided it so far.
def Opened.lined : Opened → List Lined
  | .branch line before condition => linedBranches .openIf (some line) (before ++ [⟨condition, []⟩])
  | .otherwise line branches => linedBranches .openIf none branches ++ [⟨.directive .openElse, some line⟩]
  | .loop line kind header => [⟨.directive (.openLoop kind header), some line⟩]
  | .block line name => [⟨.directive (.openBlock name), some line⟩]

-- The walk so far: from the outermost construct inwards, what stands before each one and what
-- opened it.
def linedOpened : List (List Node × Opened) → List Lined
  | [] => []
  | (before, construct) :: outer => linedOpened outer ++ linedAll before ++ construct.lined

def Builder.lined (b : Builder) : List Lined := linedOpened b.opened ++ linedAll b.nodes

def Builder.walk (b : Builder) : List Piece := b.lined.map Lined.piece

-- The same pieces, of which fewer keep their lines.
def Forgets (xs ys : List Lined) : Prop :=
  List.Forall₂ (fun x y => x.piece = y.piece ∧ ∀ line ∈ x.line, y.line = some line) xs ys

namespace Forgets

theorem refl (xs : List Lined) : Forgets xs xs :=
  List.forall₂_same.mpr fun _ _ => ⟨rfl, fun _ hline => hline⟩

theorem append {xs ys xs' ys' : List Lined} (h : Forgets xs ys) (h' : Forgets xs' ys') :
    Forgets (xs ++ xs') (ys ++ ys') :=
  List.rel_append h h'

theorem trans {xs ys zs : List Lined} (h : Forgets xs ys) (h' : Forgets ys zs) : Forgets xs zs := by
  induction h generalizing zs with
  | nil => exact h'
  | cons hxy _ ih =>
    cases h' with
    | cons hyz hyzs => exact .cons ⟨hxy.1.trans hyz.1, fun line hline => hyz.2 line (hxy.2 line hline)⟩ (ih hyzs)

theorem map_eq {xs ys : List Lined} (h : Forgets xs ys) : xs.map Lined.piece = ys.map Lined.piece := by
  induction h with
  | nil => rfl
  | cons hxy _ ih => rw [List.map_cons, List.map_cons, hxy.1, ih]

theorem one (piece : Piece) (line : Option Nat) : Forgets [⟨piece, none⟩] [⟨piece, line⟩] :=
  .cons ⟨rfl, nofun⟩ .nil

theorem branches (opening : String → Directive) (line : Option Nat) (branches : List (Branch Node)) :
    Forgets (linedBranches opening none branches) (linedBranches opening line branches) := by
  cases branches with
  | nil => exact .nil
  | cons branch branches => exact (one _ line).append (refl _)

-- The lines of the pieces around some others.
theorem around (first last : Piece) (line line' : Option Nat) (inside : List Lined) :
    Forgets (⟨first, none⟩ :: (inside ++ [⟨last, none⟩])) (⟨first, line⟩ :: (inside ++ [⟨last, line'⟩])) :=
  (one first line).append ((refl inside).append (one last line'))

end Forgets

namespace Builder

theorem push_lined (b : Builder) (node : Node) : (b.push node).lined = b.lined ++ Markup.lined node := by
  simp [Builder.lined, push, linedAll_append, linedAll]

theorem enter_lined (b : Builder) (construct : Opened) :
    (b.enter construct).lined = b.lined ++ construct.lined := by
  simp [Builder.lined, enter, linedOpened, linedAll]

-- A directive that closes the innermost construct makes a node of it, which keeps no line.
theorem closed_lined {b : Builder} {before : List Node} {construct : Opened}
    {outer : List (List Node × Opened)} (hopened : b.opened = (before, construct) :: outer) {node : Node}
    {last : Lined} (hnode : Forgets (Markup.lined node) (construct.lined ++ linedAll b.nodes ++ [last])) :
    Forgets (⟨before ++ [node], outer⟩ : Builder).lined (b.lined ++ [last]) := by
  have hbefore := (Forgets.refl (linedOpened outer ++ linedAll before)).append hnode
  simpa [Builder.lined, hopened, linedOpened, linedAll_append, linedAll] using hbefore

-- A directive that divides it starts anew inside it.
theorem divided_lined {b : Builder} {before : List Node} {construct construct' : Opened}
    {outer : List (List Node × Opened)} (hopened : b.opened = (before, construct) :: outer) {last : Lined}
    (hconstruct : Forgets construct'.lined (construct.lined ++ linedAll b.nodes ++ [last])) :
    Forgets (⟨[], (before, construct') :: outer⟩ : Builder).lined (b.lined ++ [last]) := by
  have hbefore := (Forgets.refl (linedOpened outer ++ linedAll before)).append hconstruct
  simpa [Builder.lined, hopened, linedOpened, linedAll] using hbefore

theorem close_lined {b b' : Builder} {d : Directive} (line : Nat) (h : b.close d = .ok b') :
    Forgets b'.lined (b.lined ++ [⟨.directive d, some line⟩]) := by
  unfold close at h
  split at h
  · next before opened done condition outer next hopened =>
    cases h
    refine divided_lined hopened ?_
    have hbranches := linedBranches_append .openIf (some opened) done condition b.nodes [⟨next, []⟩]
    have hlast := Forgets.one (.directive (.elseIf next)) (some line)
    have hforgets := (Forgets.refl (linedBranches .openIf (some opened) (done ++ [⟨condition, []⟩]) ++
      linedAll b.nodes)).append hlast
    simpa [Opened.lined, hbranches, linedBranches, linedAll] using hforgets
  · next before opened done condition outer hopened =>
    cases h
    refine closed_lined hopened ?_
    have hbranches := linedBranches_append .openIf (some opened) done condition b.nodes []
    have hlast := Forgets.one (.directive .endIf) (some line)
    have hforgets := (Forgets.branches .openIf (some opened) (done ++ [⟨condition, b.nodes⟩])).append hlast
    simpa [Opened.lined, Markup.lined, hbranches, linedBranches] using hforgets
  · next before opened branches outer hopened =>
    cases h
    refine closed_lined hopened ?_
    have hforgets := (Forgets.refl (linedBranches .openIf none branches)).append
      (.around (.directive .openElse) (.directive .endIf) (some opened) (some line) (linedAll b.nodes))
    simpa [Opened.lined, Markup.lined] using hforgets
  · next before opened kind header outer ended hopened =>
    split at h
    · next hkind =>
      cases h
      refine closed_lined hopened ?_
      rw [← hkind]
      exact .around _ _ (some opened) (some line) (linedAll b.nodes)
    · cases h
  · next before opened name outer hopened =>
    cases h
    exact closed_lined hopened (.around _ _ (some opened) (some line) (linedAll b.nodes))
  · cases h

theorem divide_lined {b b' : Builder} {line : Nat} (h : b.divide line = .ok b') :
    Forgets b'.lined (b.lined ++ [⟨.directive .openElse, some line⟩]) := by
  unfold divide at h
  split at h
  · next before opened done condition outer hopened =>
    cases h
    refine divided_lined hopened ?_
    have hbranches := linedBranches_append .openIf (some opened) done condition b.nodes []
    have hforgets := (Forgets.branches .openIf (some opened) (done ++ [⟨condition, b.nodes⟩])).append
      (Forgets.refl [⟨.directive .openElse, some line⟩])
    simpa [Opened.lined, hbranches, linedBranches] using hforgets
  · cases h

theorem direct_lined {b b' : Builder} {line : Nat} {d : Directive} (h : b.direct line d = .ok b') :
    Forgets b'.lined (b.lined ++ [⟨.directive d, some line⟩]) := by
  cases d with
  | openIf _ | openLoop _ _ | openBlock _ =>
    cases h
    rw [enter_lined]
    exact .refl _
  | parent =>
    cases h
    rw [push_lined]
    exact (Forgets.refl _).append (.one _ _)
  | extending _ | including _ =>
    cases h
    rw [push_lined]
    exact .refl _
  | openElse => exact divide_lined h
  | elseIf _ | endIf | endLoop _ | endBlock => exact close_lined line h

-- Takes what a segment shows.
def accept (b : Builder) (line : Nat) : Piece → Except Fault Builder
  | .text content => .ok (b.push (.text content))
  | .echo expr filters escape => .ok (b.push (.echo expr filters escape))
  | .directive d => b.direct line d

theorem accept_lined {b b' : Builder} {line : Nat} {piece : Piece} (h : b.accept line piece = .ok b') :
    Forgets b'.lined (b.lined ++ [⟨piece, some line⟩]) := by
  cases piece with
  | text content | echo expr filters escape =>
    cases h
    rw [push_lined]
    exact (Forgets.refl _).append (.one _ _)
  | directive d => exact direct_lined h

end Builder

-- What a segment shows in the tree: comments show nothing, and neither do literal sections with
-- nothing in them.
def Segment.isShown : Segment → Bool
  | text _ | echo _ | tag _ => true
  | comment _ => false
  | literal _ content _ => !content.isEmpty

def Segment.Shows : Segment → Piece → Prop
  | text content, piece | literal _ content _, piece => piece = .text (String.ofList content)
  | echo body, piece => ∃ expr filters, piece = .echo expr filters true ∧ EchoSpelled body expr filters
  | tag body, piece => ∃ d : Directive, piece = .directive d ∧ d.Spelled body
  | comment _, _ => False

-- A step takes what the segment shows, if it shows anything.
theorem Builder.take_shows {b b' : Builder} {p : Placed} (hp : p.segment.WellFormed)
    (h : b.take p = .ok b') :
    p.segment.isShown = false ∧ b' = b ∨
      p.segment.isShown = true ∧ ∃ piece, p.segment.Shows piece ∧ b.accept p.line piece = .ok b' := by
  obtain ⟨line, segment⟩ := p
  replace h := mapError_eq_ok.mp h
  cases segment with
  | text content => exact .inr ⟨rfl, _, rfl, h⟩
  | echo body =>
    obtain ⟨node, hnode, hpush⟩ := map_eq_ok h
    obtain ⟨expr, filters, rfl, hspelled⟩ := readEcho_spelled (Closes.quoted hp) hnode
    exact .inr ⟨rfl, _, ⟨expr, filters, rfl, hspelled⟩, congrArg Except.ok hpush⟩
  | tag body =>
    obtain ⟨d, hd, hdirect⟩ := bind_eq_ok h
    exact .inr ⟨rfl, _, ⟨d, rfl, readDirective_spelled hd⟩, hdirect⟩
  | comment body => exact .inl ⟨rfl, (Except.ok.inj h).symm⟩
  | literal body content closing =>
    dsimp only at h
    split at h
    · next hempty => exact .inl ⟨by simp [Segment.isShown, hempty], (Except.ok.inj h).symm⟩
    · next hcontent => exact .inr ⟨by simp [Segment.isShown, hcontent], _, rfl, h⟩

def Placed.Shows (p : Placed) (piece : Piece) : Prop :=
  p.segment.Shows piece ∧ p.segment.isShown = true

theorem Builder.take_of_shows {b b' : Builder} {p : Placed} {piece : Piece} (hp : p.Shows piece)
    (h : b.accept p.line piece = .ok b') : b.take p = .ok b' := by
  obtain ⟨line, segment⟩ := p
  obtain ⟨hp, hshown⟩ := hp
  refine mapError_eq_ok.mpr ?_
  cases segment with
  | text content =>
    obtain rfl : piece = .text _ := hp
    exact h
  | echo body =>
    obtain ⟨expr, filters, rfl, hspelled⟩ := hp
    exact (congrArg (Except.map b.push) hspelled.readEcho).trans h
  | tag body =>
    obtain ⟨d, rfl, hspelled⟩ := hp
    exact (congrArg (Except.bind · (b.direct line)) hspelled.readDirective).trans h
  | comment body => exact hp.elim
  | literal body content closing =>
    obtain rfl : piece = .text _ := hp
    dsimp only
    rw [if_neg (by simpa [Segment.isShown] using hshown)]
    exact h

theorem Builder.take_of_hidden (b : Builder) {p : Placed} (hp : p.segment.isShown = false) :
    b.take p = .ok b := by
  obtain ⟨line, segment⟩ := p
  refine mapError_eq_ok.mpr ?_
  cases segment with
  | text | echo | tag => cases hp
  | comment => rfl
  | literal body content closing =>
    have hempty : content.isEmpty = true := by simpa [Segment.isShown] using hp
    dsimp only
    rw [if_pos hempty]

def Placed.Notes (p : Placed) (x : Lined) : Prop := p.segment.Shows x.piece ∧ x.line = some p.line

-- A run takes what its segments show, one piece after the other.
theorem Builder.foldlM_take_lined {placed : List Placed} {b b' : Builder}
    (hplaced : ∀ p ∈ placed, p.segment.WellFormed) (h : placed.foldlM Builder.take b = .ok b') :
    ∃ more, Forgets b'.lined (b.lined ++ more) ∧
      List.Forall₂ Placed.Notes (placed.filter (·.segment.isShown)) more := by
  induction placed generalizing b with
  | nil =>
    cases h
    exact ⟨[], by rw [List.append_nil]; exact .refl _, .nil⟩
  | cons p placed ih =>
    obtain ⟨hp, hplaced⟩ := List.forall_mem_cons.mp hplaced
    obtain ⟨next, hnext, hrest⟩ := bind_eq_ok h
    obtain ⟨more, hforgets, hnotes⟩ := ih hplaced hrest
    rcases take_shows hp hnext with ⟨hhidden, rfl⟩ | ⟨hshown, piece, hpiece, haccept⟩
    · exact ⟨more, hforgets, by simpa [hhidden] using hnotes⟩
    · refine ⟨⟨piece, some p.line⟩ :: more, ?_, ?_⟩
      · have haccepted := (accept_lined haccept).append (.refl more)
        rw [List.append_assoc] at haccepted
        exact hforgets.trans haccepted
      · rw [List.filter_cons_of_pos (by simpa using hshown)]
        exact .cons ⟨hpiece, rfl⟩ hnotes

theorem Builder.foldlM_take_shows {placed : List Placed} {b b' : Builder}
    (hplaced : ∀ p ∈ placed, p.segment.WellFormed) (h : placed.foldlM Builder.take b = .ok b') :
    ∃ pieces, b'.walk = b.walk ++ pieces ∧
      List.Forall₂ Segment.Shows ((placed.map Placed.segment).filter Segment.isShown) pieces := by
  obtain ⟨more, hforgets, hnotes⟩ := foldlM_take_lined hplaced h
  refine ⟨more.map Lined.piece, hforgets.map_eq.trans List.map_append, ?_⟩
  rw [List.filter_map, List.forall₂_map_left_iff, List.forall₂_map_right_iff]
  exact hnotes.imp fun _ _ h => h.1

theorem Builder.finish_walk {b : Builder} {nodes : List Node} (h : b.finish = .ok nodes) :
    b.walk = walkAll nodes := by
  unfold finish at h
  split at h
  · next hopened =>
    cases h
    simp [Builder.walk, Builder.lined, hopened, linedOpened, map_linedAll]
  · cases h

def notedPage : List Segment :=
  [.text "a ".toList, .comment " note ".toList, .tag " if x ".toList, .echo " y | upper ".toList,
    .tag " elif z ".toList,
    .literal "literal".toList "\x7b\x7b w \x7d\x7d".toList "\x7b% endliteral %\x7d".toList,
    .tag " endif ".toList]

def notedTree : List Node :=
  [.text "a ", .choice [⟨"x", [.echo "y" ["upper"] true]⟩, ⟨"z", [.text "\x7b\x7b w \x7d\x7d"]⟩] none]

def Segment.isComment : Segment → Bool
  | comment _ => true
  | _ => false

def emptySection : List Char :=
  Segment.written (.literal " literal ".toList [] "\x7b% endliteral %\x7d".toList)

end TemplateEngine.Markup
