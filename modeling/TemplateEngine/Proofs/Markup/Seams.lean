import TemplateEngine.Proofs.Markup.Walk

-- Reading goes on behind a source that was read as it would start anew: the tree of two sources put
-- together is the one of the first and behind it the one of the second, whose lines are further down.
-- Only text is read in one piece across the seam.
namespace TemplateEngine.Markup

theorem SpanFree.append {cs ds : List Char} (hcs : SpanFree cs) (hlast : cs.getLast? ≠ some '{')
    (hds : SpanFree ds) : SpanFree (cs ++ ds) := by
  intro d hwithin
  rcases List.infix_append_iff.mp hwithin with hfront | hback | ⟨front, back, hsplit, hfront, hback⟩
  · exact hcs d hfront
  · exact hds d hback
  · rw [Delimiter.toList_opener] at hsplit
    match front with
    | [] => exact hds d (Delimiter.toList_opener d ▸ hsplit ▸ hback.isInfix)
    | [c] =>
      obtain ⟨rfl, -⟩ := List.cons.inj hsplit
      obtain ⟨more, rfl⟩ := hfront
      exact hlast (by simp)
    | [c, e] =>
      obtain ⟨rfl, rfl, -⟩ : c = '{' ∧ e = d.second ∧ back = [] := by simpa using hsplit.symm
      exact hcs d (Delimiter.toList_opener d ▸ hfront.isInfix)
    | c :: e :: f :: front => simp at hsplit

-- The segments of two texts put together: those of both, but text that meets text makes one segment.
inductive Joined : List Segment → List Segment → List Segment → Prop
  | apart (sa sb : List Segment) : Joined sa sb (sa ++ sb)
  | merged (front : List Segment) (content content' : List Char) (back : List Segment) :
      Joined (front ++ [.text content]) (.text content' :: back) (front ++ .text (content ++ content') :: back)

theorem Joined.cons {sa sb segs : List Segment} (h : Joined sa sb segs) (s : Segment) :
    Joined (s :: sa) sb (s :: segs) := by
  cases h with
  | apart => exact .apart (s :: sa) sb
  | merged front content content' back => exact .merged (s :: front) content content' back

theorem getLast?_ne_of_append {cs ds : List Char} {c : Char} (h : (cs ++ ds).getLast? ≠ some c) :
    ds.getLast? ≠ some c := by
  intro hds
  rw [List.getLast?_append, hds] at h
  exact h rfl

-- Text at the end of a source, and what is behind it.
theorem Cut.text_append {content cs : List Char} {segs : List Segment} (hcontent : content ≠ [])
    (hfree : SpanFree content) (hlast : content.getLast? ≠ some '{') (h : Cut cs segs []) :
    ∃ joined, Joined [.text content] segs joined ∧ Cut (content ++ cs) joined [] := by
  have hone (rest : List Char) : SpanFree (rest.take 1) := by
    intro d hwithin
    have hlength := hwithin.length_le
    simp only [Delimiter.toList_opener, List.length_cons, List.length_nil, List.length_take] at hlength
    omega
  cases h with
  | nil => exact ⟨_, .apart _ _, .text hcontent (hfree.append hlast (hone [])) (.inl rfl) (.nil [])⟩
  | @text content' rest _ segs hcontent' hfree' hrest hsegs =>
    refine ⟨_, .merged [] content content' segs, ?_⟩
    rw [← List.append_assoc]
    refine .text (by simp [hcontent]) ?_ hrest hsegs
    rw [List.append_assoc]
    exact hfree.append hlast hfree'
  | @span s rest _ segs hs hspan hsegs =>
    refine ⟨_, .apart _ _, .text hcontent (hfree.append hlast (hone _)) (.inr ?_) (.span hs hspan hsegs)⟩
    obtain ⟨d, body, hopener⟩ := s.exists_opener hspan
    exact ⟨d, body ++ rest, by rw [hopener, List.append_assoc]⟩

-- A brace at the end of a text could open a span in the next one. Without it the cut of a text stays
-- what it is whatever comes behind.
theorem Cut.append {cs ds : List Char} {sa sb : List Segment} (ha : Cut cs sa [])
    (hlast : cs.getLast? ≠ some '{') (hb : Cut ds sb []) :
    ∃ segs, Joined sa sb segs ∧ Cut (cs ++ ds) segs [] := by
  generalize hleft : ([] : List Char) = left at ha
  induction ha with
  | nil cs =>
    subst hleft
    exact ⟨sb, .apart [] sb, hb⟩
  | @text content rest left sa hcontent hfree hrest hsegs ih =>
    rcases hrest with rfl | ⟨d, hd⟩
    · obtain rfl := hsegs.eq_nil
      subst hleft
      rw [List.append_nil] at hlast ⊢
      exact hb.text_append hcontent (by simpa using hfree) hlast
    · obtain ⟨segs, hjoined, hcut⟩ := ih (getLast?_ne_of_append hlast) hleft
      obtain ⟨tail, rfl⟩ := hd
      have htake : (d.opener.toList ++ tail ++ ds).take 1 = (d.opener.toList ++ tail).take 1 := by
        rw [Delimiter.toList_opener]
        rfl
      refine ⟨_, hjoined.cons _, ?_⟩
      rw [List.append_assoc]
      exact .text hcontent (htake ▸ hfree) (.inr ⟨d, tail ++ ds, by rw [List.append_assoc]⟩) hcut
  | span hs hspan hsegs ih =>
    obtain ⟨segs, hjoined, hcut⟩ := ih (getLast?_ne_of_append hlast) hleft
    refine ⟨_, hjoined.cons _, ?_⟩
    rw [List.append_assoc]
    exact .span hs hspan hcut

theorem located_append (line : Nat) (segs more : List Segment) :
    located line (segs ++ more) = located line segs ++ located (line + Text.newlines (written segs)) more := by
  induction segs generalizing line with
  | nil => rfl
  | cons s segs ih => simp [located, ih, Nat.add_assoc]

def Placed.lowered (n : Nat) (p : Placed) : Placed := { p with line := p.line + n }

theorem located_add (line n : Nat) (segs : List Segment) :
    located (line + n) segs = (located line segs).map (Placed.lowered n) := by
  induction segs generalizing line with
  | nil => rfl
  | cons s segs ih =>
    have hline : line + n + Text.newlines s.written = line + Text.newlines s.written + n := by omega
    simp [located, Placed.lowered, hline, ih]

mutual

-- A node whose lines are further down.
def lowered (n : Nat) : Node → Node
  | .choice branches none => .choice (loweredBranches n branches) none
  | .choice branches (some body) => .choice (loweredBranches n branches) (some (loweredAll n body))
  | .loop kind header body => .loop kind header (loweredAll n body)
  | .block name body => .block name (loweredAll n body)
  | .extending name line => .extending name (line + n)
  | .including name line => .including name (line + n)
  | .text content => .text content
  | .echo expr filters escape => .echo expr filters escape
  | .parent => .parent

def loweredAll (n : Nat) : List Node → List Node
  | [] => []
  | node :: nodes => lowered n node :: loweredAll n nodes

def loweredBranches (n : Nat) : List (Branch Node) → List (Branch Node)
  | [] => []
  | ⟨condition, body⟩ :: branches => ⟨condition, loweredAll n body⟩ :: loweredBranches n branches

end

theorem loweredAll_append (n : Nat) (xs ys : List Node) :
    loweredAll n (xs ++ ys) = loweredAll n xs ++ loweredAll n ys := by
  induction xs with
  | nil => rfl
  | cons node xs ih => simp [loweredAll, ih]

theorem loweredBranches_append (n : Nat) (xs ys : List (Branch Node)) :
    loweredBranches n (xs ++ ys) = loweredBranches n xs ++ loweredBranches n ys := by
  induction xs with
  | nil => rfl
  | cons branch xs ih => simp [loweredBranches, ih]

def Opened.lowered (n : Nat) : Opened → Opened
  | .branch line before condition => .branch (line + n) (loweredBranches n before) condition
  | .otherwise line branches => .otherwise (line + n) (loweredBranches n branches)
  | .loop line kind header => .loop (line + n) kind header
  | .block line name => .block (line + n) name

-- Two builders with the same constructs open and the same nodes, further down in the second one. Only
-- the nodes in front may differ.
inductive Moved (front front' : List Node) (n : Nat) : Builder → Builder → Prop
  | outside (nodes : List Node) : Moved front front' n ⟨front ++ nodes, []⟩ ⟨front' ++ loweredAll n nodes, []⟩
  | inside {before before' : List Node} {outer outer' : List (List Node × Opened)}
      (h : Moved front front' n ⟨before, outer⟩ ⟨before', outer'⟩) (construct : Opened) (nodes : List Node) :
      Moved front front' n ⟨nodes, (before, construct) :: outer⟩
        ⟨loweredAll n nodes, (before', construct.lowered n) :: outer'⟩

namespace Moved

variable {front front' : List Node} {n : Nat} {b b' next : Builder}

theorem push (h : Moved front front' n b b') (node : Node) :
    Moved front front' n (b.push node) (b'.push (lowered n node)) := by
  cases h with
  | outside nodes =>
    have hpushed : Moved front front' n _ _ := .outside (nodes ++ [node])
    simpa [Builder.push, loweredAll_append, loweredAll] using hpushed
  | inside h construct nodes =>
    have hpushed := h.inside construct (nodes ++ [node])
    simpa [Builder.push, loweredAll_append, loweredAll] using hpushed

theorem enter (h : Moved front front' n b b') (construct : Opened) :
    Moved front front' n (b.enter construct) (b'.enter (construct.lowered n)) :=
  h.inside construct []

theorem close (h : Moved front front' n b b') {d : Directive} (hclose : b.close d = .ok next) :
    ∃ next', b'.close d = .ok next' ∧ Moved front front' n next next' := by
  cases h with
  | outside nodes =>
    cases d <;> cases hclose
  | inside h construct nodes =>
    cases construct with
    | branch line done condition =>
      cases d with
      | elseIf further =>
        cases hclose
        refine ⟨_, rfl, ?_⟩
        have hnext := h.inside (.branch line (done ++ [⟨condition, nodes⟩]) further) []
        simpa [Opened.lowered, loweredAll, loweredBranches_append, loweredBranches] using hnext
      | endIf =>
        cases hclose
        refine ⟨_, rfl, ?_⟩
        have hnext := h.push (.choice (done ++ [⟨condition, nodes⟩]) none)
        simpa [Builder.push, lowered, loweredBranches_append, loweredBranches] using hnext
      | _ => cases hclose
    | otherwise line branches =>
      cases d with
      | endIf =>
        cases hclose
        exact ⟨_, rfl, h.push (.choice branches (some nodes))⟩
      | _ => cases hclose
    | loop line kind header =>
      cases d with
      | endLoop ended =>
        simp only [Builder.close] at hclose
        split at hclose
        · next hkind =>
          cases hclose
          refine ⟨_, ?_, h.push (.loop kind header nodes)⟩
          simp only [Opened.lowered, Builder.close, hkind, if_true]
          rfl
        · cases hclose
      | _ => cases hclose
    | block line name =>
      cases d with
      | endBlock =>
        cases hclose
        exact ⟨_, rfl, h.push (.block name nodes)⟩
      | _ => cases hclose

theorem divide (h : Moved front front' n b b') {line : Nat} (hdivide : b.divide line = .ok next) :
    ∃ next', b'.divide (line + n) = .ok next' ∧ Moved front front' n next next' := by
  cases h with
  | outside nodes => cases hdivide
  | inside h construct nodes =>
    cases construct with
    | branch opened done condition =>
      cases hdivide
      refine ⟨_, rfl, ?_⟩
      have hnext := h.inside (.otherwise line (done ++ [⟨condition, nodes⟩])) []
      simpa [Opened.lowered, loweredAll, loweredBranches_append, loweredBranches] using hnext
    | otherwise | loop | block => cases hdivide

theorem direct (h : Moved front front' n b b') {line : Nat} {d : Directive}
    (hdirect : b.direct line d = .ok next) :
    ∃ next', b'.direct (line + n) d = .ok next' ∧ Moved front front' n next next' := by
  cases d with
  | openIf condition =>
    cases hdirect
    exact ⟨_, rfl, h.enter (.branch line [] condition)⟩
  | openLoop kind header =>
    cases hdirect
    exact ⟨_, rfl, h.enter (.loop line kind header)⟩
  | openBlock name =>
    cases hdirect
    exact ⟨_, rfl, h.enter (.block line name)⟩
  | parent =>
    cases hdirect
    exact ⟨_, rfl, h.push .parent⟩
  | extending name =>
    cases hdirect
    exact ⟨_, rfl, h.push (.extending name line)⟩
  | including name =>
    cases hdirect
    exact ⟨_, rfl, h.push (.including name line)⟩
  | openElse => exact h.divide hdirect
  | elseIf _ | endIf | endLoop _ | endBlock => exact h.close hdirect

theorem accept (h : Moved front front' n b b') {line : Nat} {piece : Piece}
    (haccept : b.accept line piece = .ok next) :
    ∃ next', b'.accept (line + n) piece = .ok next' ∧ Moved front front' n next next' := by
  cases piece with
  | text content =>
    cases haccept
    exact ⟨_, rfl, h.push (.text content)⟩
  | echo expr filters escape =>
    cases haccept
    exact ⟨_, rfl, h.push (.echo expr filters escape)⟩
  | directive d => exact h.direct haccept

theorem take (h : Moved front front' n b b') {p : Placed} (hp : p.segment.WellFormed)
    (htake : b.take p = .ok next) :
    ∃ next', b'.take (p.lowered n) = .ok next' ∧ Moved front front' n next next' := by
  rcases Builder.take_shows hp htake with ⟨hhidden, rfl⟩ | ⟨hshown, piece, hpiece, haccept⟩
  · exact ⟨b', b'.take_of_hidden hhidden, h⟩
  · obtain ⟨next', hnext, hmoved⟩ := h.accept haccept
    exact ⟨next', Builder.take_of_shows ⟨hpiece, hshown⟩ hnext, hmoved⟩

theorem foldlM_take {placed : List Placed} (h : Moved front front' n b b')
    (hplaced : ∀ p ∈ placed, p.segment.WellFormed) (hrun : placed.foldlM Builder.take b = .ok next) :
    ∃ next', (placed.map (Placed.lowered n)).foldlM Builder.take b' = .ok next' ∧
      Moved front front' n next next' := by
  induction placed generalizing b b' with
  | nil =>
    cases hrun
    exact ⟨b', rfl, h⟩
  | cons p placed ih =>
    obtain ⟨hp, hplaced⟩ := List.forall_mem_cons.mp hplaced
    obtain ⟨after, htake, hrest⟩ := bind_eq_ok hrun
    obtain ⟨after', htake', hafter⟩ := h.take hp htake
    obtain ⟨next', hrun', hnext⟩ := ih hafter hplaced hrest
    refine ⟨next', ?_, hnext⟩
    rw [List.map_cons, List.foldlM_cons, htake']
    exact hrun'

-- Where nothing is open any more, only what was in front is left different.
theorem eq_of_closed {nodes : List Node} (h : Moved front front' n ⟨nodes, []⟩ b') :
    ∃ more, nodes = front ++ more ∧ b' = ⟨front' ++ loweredAll n more, []⟩ := by
  cases h with
  | outside more => exact ⟨more, rfl, rfl⟩

end Moved

theorem build_eq_ok_iff {placed : List Placed} {nodes : List Node} :
    build placed = .ok nodes ↔ placed.foldlM Builder.take .start = .ok ⟨nodes, []⟩ := by
  constructor
  · intro h
    obtain ⟨⟨nodes', opened⟩, hrun, hfinish⟩ := bind_eq_ok h
    cases opened with
    | nil =>
      cases hfinish
      exact hrun
    | cons => cases hfinish
  · intro h
    unfold build
    rw [h]
    rfl

-- The segments of a source that follow some nodes build on them what they build on their own.
theorem foldlM_take_behind {line : Nat} {segs : List Segment} (hsegs : ∀ s ∈ segs, s.WellFormed)
    {front nodes : List Node} (h : (located line segs).foldlM Builder.take ⟨front, []⟩ = .ok ⟨nodes, []⟩)
    (n : Nat) (front' : List Node) :
    ∃ more, nodes = front ++ more ∧
      (located (line + n) segs).foldlM Builder.take ⟨front', []⟩ = .ok ⟨front' ++ loweredAll n more, []⟩ := by
  have hstart : Moved front front' n ⟨front ++ [], []⟩ ⟨front' ++ [], []⟩ := .outside []
  rw [List.append_nil, List.append_nil] at hstart
  obtain ⟨next', hrun, hmoved⟩ := hstart.foldlM_take (wellFormed_located hsegs line) h
  obtain ⟨more, rfl, rfl⟩ := hmoved.eq_of_closed
  refine ⟨more, rfl, ?_⟩
  rw [located_add]
  exact hrun

-- A text in front of nodes, put together with the one they begin with.
def textThen (content : String) : List Node → List Node
  | .text more :: nodes => .text (content ++ more) :: nodes
  | nodes => .text content :: nodes

-- Texts that stand next to each other are put together, but not those inside the nodes.
def mergeTexts : List Node → List Node
  | [] => []
  | .text content :: nodes => textThen content (mergeTexts nodes)
  | node :: nodes => node :: mergeTexts nodes

theorem textThen_textThen (content more : String) (nodes : List Node) :
    textThen content (textThen more nodes) = textThen (content ++ more) nodes := by
  cases nodes with
  | nil => rfl
  | cons node nodes => cases node <;> simp [textThen, String.append_assoc]

theorem mergeTexts_append {xs ys : List Node} (h : mergeTexts xs = mergeTexts ys) (front : List Node) :
    mergeTexts (front ++ xs) = mergeTexts (front ++ ys) := by
  induction front with
  | nil => exact h
  | cons node front ih => cases node <;> simp only [List.cons_append, mergeTexts, ih]

theorem build_joined {sa sb segs : List Segment} (h : Joined sa sb segs) (hformed : ∀ s ∈ sb, s.WellFormed)
    {xs ys : List Node} (ha : build (located 1 sa) = .ok xs) (hb : build (located 1 sb) = .ok ys) :
    ∃ zs, build (located 1 segs) = .ok zs ∧
      mergeTexts zs = mergeTexts (xs ++ loweredAll (Text.newlines (written sa)) ys) := by
  simp only [build_eq_ok_iff] at ha hb ⊢
  cases h with
  | apart =>
    obtain ⟨more, rfl, hrun⟩ := foldlM_take_behind hformed hb (Text.newlines (written sa)) xs
    refine ⟨_, ?_, rfl⟩
    rw [located_append, List.foldlM_append, ha]
    exact hrun
  | merged front content content' back =>
    rw [located_append, List.foldlM_append] at ha
    obtain ⟨⟨before, opened⟩, hfront, htext⟩ := bind_eq_ok ha
    cases htext
    obtain ⟨-, hback⟩ := List.forall_mem_cons.mp hformed
    generalize hn : Text.newlines (written (front ++ [.text content])) = n
    have hline : 1 + Text.newlines (written front) + Text.newlines (content ++ content') =
        1 + Text.newlines content' + n := by
      simp only [← hn, Text.newlines_append, written_append, written_cons, written_nil, Segment.written,
        List.append_nil]
      omega
    replace hb : (located (1 + Text.newlines content') back).foldlM Builder.take
      ⟨[.text (String.ofList content')], []⟩ = .ok ⟨ys, []⟩ := hb
    obtain ⟨more, rfl, hrun⟩ := foldlM_take_behind hback hb n
      (before ++ [.text (String.ofList (content ++ content'))])
    rw [← hline] at hrun
    refine ⟨before ++ [.text (String.ofList (content ++ content'))] ++ loweredAll n more, ?_, ?_⟩
    · rw [located_append, List.foldlM_append, hfront]
      exact hrun
    · have hmerged : mergeTexts (.text (String.ofList (content ++ content')) :: loweredAll n more) =
          mergeTexts (.text (String.ofList content) :: .text (String.ofList content') :: loweredAll n more) := by
        simp only [mergeTexts, textThen_textThen, String.ofList_append]
      simpa [loweredAll, lowered] using mergeTexts_append hmerged before

-- Reading is compositional: what stands behind a source is read as it is on its own, further down, but
-- for text that goes on across the seam.
theorem read_append {cs ds : List Char} {xs ys : List Node} (hcs : read cs = .ok xs)
    (hds : read ds = .ok ys) (hlast : cs.getLast? ≠ some '{') :
    ∃ zs, read (cs ++ ds) = .ok zs ∧
      mergeTexts zs = mergeTexts (xs ++ loweredAll (Text.newlines cs) ys) := by
  obtain ⟨_, hsa, ha⟩ := bind_eq_ok hcs
  obtain ⟨sa, hcuta, rfl⟩ := segments_located hsa
  obtain ⟨_, hsb, hb⟩ := bind_eq_ok hds
  obtain ⟨sb, hcutb, rfl⟩ := segments_located hsb
  obtain ⟨segs, hjoined, hcut⟩ := hcuta.append hlast hcutb
  obtain ⟨zs, hzs, hmerged⟩ := build_joined hjoined hcutb.wellFormed ha hb
  have hwritten : cs = written sa := hcuta.written.trans (List.append_nil _)
  refine ⟨zs, ?_, hwritten ▸ hmerged⟩
  unfold read
  rw [hcut.segments 1]
  exact hzs

def greeting : List Char := "\x7b% if x %\x7d\nhey\n\x7b% endif %\x7dto ".toList

def signature : List Char := "you\n\x7b% include 'name' %\x7d".toList

theorem read_append_signature :
    read greeting = .ok [.choice [⟨"x", [.text "\nhey\n"]⟩] none, .text "to "] ∧
      read signature = .ok [.text "you\n", .including "name" 2] ∧ greeting.getLast? ≠ some '{' ∧
      ∃ zs, read (greeting ++ signature) = .ok zs ∧
        mergeTexts zs =
          [.choice [⟨"x", [.text "\nhey\n"]⟩] none, .text "to you\n", .including "name" 4] := by
  have hgreeting : read greeting = .ok [.choice [⟨"x", [.text "\nhey\n"]⟩] none, .text "to "] := by
    with_unfolding_all rfl
  have hsignature : read signature = .ok [.text "you\n", .including "name" 2] := by
    with_unfolding_all rfl
  have hlast : greeting.getLast? ≠ some '{' := by decide
  exact ⟨hgreeting, hsignature, hlast, read_append hgreeting hsignature hlast⟩

end TemplateEngine.Markup
