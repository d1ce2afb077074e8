import TemplateEngine.Proofs.Compile.References
import TemplateEngine.Proofs.Markup.Lines

-- Where the nodes of a template name a base: the line that is reported for one in the wrong place is its
-- own line, and what stands before it shows why the place is wrong.
namespace TemplateEngine.Compile

open Markup (Piece Lined lined linedAll linedBranches walk walkAll walkBranches Innermost Within Directive)

section Settling

variable {registry : Registry} {autoEscape : Bool} {source : List Char}

mutual

theorem settle_baseLine? : ∀ {node node' : Node}, settle registry autoEscape source node = .ok node' →
    baseLine? node' = baseLine? node
  | .echo expr filters escape, node', h => by
    rw [settle] at h
    split at h
    · cases h
    · cases h
      rfl
  | .choice branches none, node', h => by
    rw [settle] at h
    obtain ⟨branches', hbranches, h⟩ := bind_eq_ok h
    cases h
    rw [baseLine?, baseLine?, settleBranches_baseLine? hbranches]
  | .choice branches (some body), node', h => by
    rw [settle] at h
    obtain ⟨branches', hbranches, h⟩ := bind_eq_ok h
    obtain ⟨body', hbody, h⟩ := bind_eq_ok h
    cases h
    rw [baseLine?, baseLine?, settleBranches_baseLine? hbranches, settleAll_baseLine? hbody]
  | .loop _ _ body, node', h | .block _ body, node', h => by
    rw [settle] at h
    obtain ⟨body', hbody, h⟩ := bind_eq_ok h
    cases h
    rw [baseLine?, baseLine?, settleAll_baseLine? hbody]
  | .text _, node', h | .parent, node', h | .extending _ _, node', h | .including _ _, node', h => by
    simp only [settle, Except.ok.injEq] at h
    rw [h]

theorem settleAll_baseLine? : ∀ {nodes nodes' : List Node},
    settleAll registry autoEscape source nodes = .ok nodes' → baseLineIn? nodes' = baseLineIn? nodes
  | [], nodes', h => by
    rw [settleAll] at h
    cases h
    rfl
  | node :: nodes, nodes', h => by
    rw [settleAll] at h
    obtain ⟨node', hnode, h⟩ := bind_eq_ok h
    obtain ⟨others, hothers, h⟩ := bind_eq_ok h
    cases h
    rw [baseLineIn?, baseLineIn?, settle_baseLine? hnode, settleAll_baseLine? hothers]

theorem settleBranches_baseLine? : ∀ {branches branches' : List (Branch Node)},
    settleBranches registry autoEscape source branches = .ok branches' →
      baseLineInBranches? branches' = baseLineInBranches? branches
  | [], branches', h => by
    rw [settleBranches] at h
    cases h
    rfl
  | ⟨condition, body⟩ :: branches, branches', h => by
    rw [settleBranches] at h
    obtain ⟨body', hbody, h⟩ := bind_eq_ok h
    obtain ⟨others, hothers, h⟩ := bind_eq_ok h
    cases h
    rw [baseLineInBranches?, baseLineInBranches?, settleAll_baseLine? hbody,
      settleBranches_baseLine? hothers]

end

theorem settle_extending {node : Node} {name : String} {line : Nat}
    (h : settle registry autoEscape source node = .ok (.extending name line)) :
    node = .extending name line := by
  cases node with
  | echo expr filters escape =>
    rw [settle] at h
    split at h <;> cases h
  | choice branches otherwise =>
    cases otherwise <;> rw [settle] at h
    · obtain ⟨_, -, h⟩ := bind_eq_ok h
      cases h
    · obtain ⟨_, -, h⟩ := bind_eq_ok h
      obtain ⟨_, -, h⟩ := bind_eq_ok h
      cases h
  | loop kind header body | block name body =>
    rw [settle] at h
    obtain ⟨_, -, h⟩ := bind_eq_ok h
    cases h
  | text | parent | extending | including =>
    simp only [settle, Except.ok.injEq] at h
    exact h

-- Settling filters leaves the bases that nodes name where they are.
theorem settleAll_base? {nodes nodes' : List Node}
    (h : settleAll registry autoEscape source nodes = .ok nodes') (found : Option String) :
    base? found nodes' = base? found nodes := by
  induction nodes generalizing nodes' found with
  | nil =>
    rw [settleAll] at h
    cases h
    rfl
  | cons node nodes ih =>
    rw [settleAll] at h
    obtain ⟨node', hnode, h⟩ := bind_eq_ok h
    obtain ⟨others, hothers, h⟩ := bind_eq_ok h
    cases h
    by_cases hbase : ∃ name line, node = .extending name line
    · obtain ⟨name, line, rfl⟩ := hbase
      simp only [settle, Except.ok.injEq] at hnode
      subst hnode
      cases found with
      | none => exact ih hothers (some name)
      | some other => rfl
    · simp only [not_exists] at hbase
      have hbase' : ∀ name line, node' ≠ .extending name line := by
        rintro name line rfl
        exact hbase name line (settle_extending hnode)
      rw [base?_cons hbase, base?_cons hbase', settle_baseLine? hnode, ih hothers]

end Settling

-- A base that some pieces name on a line, and what stands before it.
def Extends (xs : List Lined) (line : Nat) (before : List Lined) : Prop :=
  ∃ name after, xs = before ++ ⟨.directive (.extending name), some line⟩ :: after

theorem Extends.inside {xs : List Lined} {line : Nat} {before : List Lined} (h : Extends xs line before)
    (front back : List Lined) : Extends (front ++ xs ++ back) line (front ++ before) := by
  obtain ⟨name, after, rfl⟩ := h
  exact ⟨name, after ++ back, by simp⟩

-- Pieces that end in one of the branches of a choice, or in a construct inside it.
def InBranches (opening : String → Directive) (pieces : List Piece) : Prop :=
  (∃ branch more, pieces = walkBranches opening (branch :: more)) ∨
    ∃ nearest, Innermost pieces (some nearest)

namespace InBranches

variable {opening : String → Directive} {pieces : List Piece}

theorem first {innermost : Option Directive} (h : Innermost pieces innermost) (opening : String → Directive)
    (condition : String) : InBranches opening (.directive (opening condition) :: pieces) := by
  cases h with
  | outside nodes => exact .inl ⟨⟨condition, nodes⟩, [], by simp [walkBranches]⟩
  | inside outside hpieces => exact .inr ⟨_, .inside (.directive (opening condition) :: outside) hpieces⟩

theorem later (h : InBranches .elseIf pieces) (opening : String → Directive) (branch : Branch Node) :
    InBranches opening (.directive (opening branch.condition) :: (walkAll branch.body ++ pieces)) := by
  rcases h with ⟨next, more, rfl⟩ | ⟨nearest, hnearest⟩
  · exact .inl ⟨branch, next :: more, rfl⟩
  · exact .inr ⟨nearest, hnearest.behind (.directive (opening branch.condition) :: walkAll branch.body)⟩

theorem exists_innermost (h : InBranches .openIf pieces) : ∃ nearest, Innermost pieces (some nearest) := by
  rcases h with ⟨⟨condition, body⟩, more, rfl⟩ | hnearest
  · exact ⟨_, .inside [] (.branches condition body more)⟩
  · exact hnearest

end InBranches

mutual

theorem baseLine?_nested : ∀ {node : Node} {line : Nat}, (∀ name l, node ≠ .extending name l) →
    baseLine? node = some line →
      ∃ before opening, Extends (lined node) line before ∧ Innermost (before.map Lined.piece) (some opening)
  | .text _, _, _, h | .echo _ _ _, _, _, h | .parent, _, _, h | .including _ _, _, _, h => by
    simp [baseLine?] at h
  | .extending name line, _, hnode, _ => absurd rfl (hnode name line)
  | .loop kind header body, _, _, h => by
    rw [baseLine?] at h
    obtain ⟨before, innermost, hextends, hbefore⟩ := baseLineIn?_placed h
    obtain ⟨nearest, hnearest⟩ := hbefore.enter (.loop kind header)
    exact ⟨_, nearest, hextends.inside [_] [_], hnearest⟩
  | .block name body, _, _, h => by
    rw [baseLine?] at h
    obtain ⟨before, innermost, hextends, hbefore⟩ := baseLineIn?_placed h
    obtain ⟨nearest, hnearest⟩ := hbefore.enter (.block name)
    exact ⟨_, nearest, hextends.inside [_] [_], hnearest⟩
  | .choice branches none, _, _, h => by
    rw [baseLine?] at h
    obtain ⟨before, hextends, hbefore⟩ := baseLineInBranches?_placed .openIf h
    obtain ⟨nearest, hnearest⟩ := hbefore.exists_innermost
    exact ⟨_, nearest, hextends.inside [] [_], hnearest⟩
  | .choice branches (some body), _, _, h => by
    rw [baseLine?, Option.or_eq_some_iff] at h
    rcases h with h | ⟨-, h⟩
    · obtain ⟨before, hextends, hbefore⟩ := baseLineInBranches?_placed .openIf h
      obtain ⟨nearest, hnearest⟩ := hbefore.exists_innermost
      exact ⟨_, nearest, hextends.inside [] (_ :: (_ ++ [_])), hnearest⟩
    · obtain ⟨before, innermost, hextends, hbefore⟩ := baseLineIn?_placed h
      obtain ⟨nearest, hnearest⟩ := hbefore.enter .otherwise
      refine ⟨linedBranches .openIf none branches ++ [⟨.directive .openElse, none⟩] ++ before, nearest, ?_, ?_⟩
      · have hinside := hextends.inside
          (linedBranches .openIf none branches ++ [⟨.directive .openElse, none⟩]) [⟨.directive .endIf, none⟩]
        simpa [lined] using hinside
      · simpa using hnearest.behind (linedBranches .openIf none branches |>.map Lined.piece)

theorem baseLineIn?_placed : ∀ {nodes : List Node} {line : Nat}, baseLineIn? nodes = some line →
    ∃ before innermost, Extends (linedAll nodes) line before ∧ Innermost (before.map Lined.piece) innermost
  | [], _, h => by simp [baseLineIn?] at h
  | node :: nodes, line, h => by
    rw [baseLineIn?, Option.or_eq_some_iff] at h
    rcases h with h | ⟨-, h⟩
    · by_cases hbase : ∃ name l, node = .extending name l
      · obtain ⟨name, l, rfl⟩ := hbase
        cases h
        exact ⟨[], none, ⟨name, linedAll nodes, rfl⟩, .outside []⟩
      · simp only [not_exists] at hbase
        obtain ⟨before, nearest, hextends, hbefore⟩ := baseLine?_nested hbase h
        exact ⟨_, _, hextends.inside [] _, hbefore⟩
    · obtain ⟨before, innermost, hextends, hbefore⟩ := baseLineIn?_placed h
      refine ⟨lined node ++ before, innermost, ?_, ?_⟩
      · simpa [linedAll] using hextends.inside (lined node) []
      · simpa [Markup.map_lined] using hbefore.cons node

-- In the branches of a choice what is open is the choice, if nothing that is nearer.
theorem baseLineInBranches?_placed (opening : String → Directive) : ∀ {branches : List (Branch Node)}
    {line : Nat}, baseLineInBranches? branches = some line →
      ∃ before, Extends (linedBranches opening none branches) line before ∧
        InBranches opening (before.map Lined.piece)
  | [], _, h => by simp [baseLineInBranches?] at h
  | ⟨condition, body⟩ :: branches, _, h => by
    rw [baseLineInBranches?, Option.or_eq_some_iff] at h
    rcases h with h | ⟨-, h⟩
    · obtain ⟨before, innermost, hextends, hbefore⟩ := baseLineIn?_placed h
      refine ⟨⟨.directive (opening condition), none⟩ :: before, hextends.inside [_] _, ?_⟩
      exact InBranches.first hbefore opening condition
    · obtain ⟨before, hextends, hbefore⟩ := baseLineInBranches?_placed .elseIf h
      refine ⟨⟨.directive (opening condition), none⟩ :: (linedAll body ++ before), ?_, ?_⟩
      · have hinside := hextends.inside (⟨.directive (opening condition), none⟩ :: linedAll body) []
        simpa [linedBranches] using hinside
      · simpa [Markup.map_linedAll] using hbefore.later opening ⟨condition, body⟩

end

-- Why no base may be named behind some pieces, where one was found before them or none.
inductive Misplaced (found : Option String) : List Piece → Markup.Fault → Prop
  | second {front : List Node} (hfirst : found = none → ∃ n ∈ front, Extending n) :
      Misplaced found (walkAll front) .secondBase
  | nested {pieces : List Piece} {nearest : Directive} (h : Innermost pieces (some nearest)) :
      Misplaced found pieces .nestedBase

theorem Misplaced.cons {found found' : Option String} {pieces : List Piece} {fault : Markup.Fault}
    (h : Misplaced found' pieces fault) {node : Node} (hfound : found = none → found' = none ∨ Extending node) :
    Misplaced found (walk node ++ pieces) fault := by
  cases h with
  | @second front hfirst =>
    have hnode : found = none → ∃ n ∈ node :: front, Extending n := by
      intro hnone
      rcases hfound hnone with hnone' | hextending
      · obtain ⟨n, hn, hextending⟩ := hfirst hnone'
        exact ⟨n, List.mem_cons_of_mem node hn, hextending⟩
      · exact ⟨node, by simp, hextending⟩
    exact .second hnode
  | nested h => exact .nested (h.behind (walk node))

theorem base?_eq_error {found : Option String} {nodes : List Node} {e : Markup.Error}
    (h : base? found nodes = .error e) :
    ∃ before, Extends (linedAll nodes) e.line before ∧
      Misplaced found (before.map Lined.piece) e.fault := by
  induction nodes generalizing found with
  | nil => cases h
  | cons node nodes ih =>
    have hlater {found' : Option String} (h : base? found' nodes = .error e)
        (hfound : found = none → found' = none ∨ Extending node) :
        ∃ before, Extends (linedAll (node :: nodes)) e.line before ∧
          Misplaced found (before.map Lined.piece) e.fault := by
      obtain ⟨before, hextends, hmisplaced⟩ := ih h
      refine ⟨lined node ++ before, by simpa [linedAll] using hextends.inside (lined node) [], ?_⟩
      rw [List.map_append, Markup.map_lined]
      exact hmisplaced.cons hfound
    by_cases hbase : ∃ name line, node = .extending name line
    · obtain ⟨name, line, rfl⟩ := hbase
      cases found with
      | some other =>
        cases h
        have hsecond : Misplaced (some other) (walkAll []) .secondBase := .second nofun
        exact ⟨[], ⟨name, linedAll nodes, rfl⟩, hsecond⟩
      | none => exact hlater h fun _ => .inr ⟨name, line, rfl⟩
    · simp only [not_exists] at hbase
      rw [base?_cons hbase] at h
      split at h
      · next line hline =>
        cases h
        obtain ⟨before, nearest, hextends, hbefore⟩ := baseLine?_nested hbase hline
        exact ⟨before, hextends.inside [] _, .nested hbefore⟩
      · exact hlater h .inl

end TemplateEngine.Compile
