import TemplateEngine.Proofs.Compile.Reach
import TemplateEngine.Proofs.Program.Leaves

-- The references of a text: the names that its leaves include or extend. A text that compiles extends
-- a name at the top or not at all.
namespace TemplateEngine.Compile

open Node

def Extending (n : Node) : Prop := ∃ name line, n = .extending name line

mutual

theorem not_extending_of_baseLine? : ∀ {node : Node}, baseLine? node = none →
    ∀ n ∈ leaves node, ¬Extending n
  | .choice branches none, h => by
    rw [baseLine?] at h
    rw [leaves]
    exact not_extending_of_baseLineInBranches? h
  | .choice branches (some body), h => by
    rw [baseLine?, Option.or_eq_none_iff] at h
    rw [leaves, List.forall_mem_append]
    exact ⟨not_extending_of_baseLineInBranches? h.1, not_extending_of_baseLineIn? h.2⟩
  | .loop kind header body, h => by
    rw [baseLine?] at h
    rw [leaves]
    exact not_extending_of_baseLineIn? h
  | .block name body, h => by
    rw [baseLine?] at h
    rw [leaves]
    exact not_extending_of_baseLineIn? h
  | .extending name line, h => by simp [baseLine?] at h
  | .text _, _ | .echo _ _ _, _ | .parent, _ | .including _ _, _ => by simp [leaves, Extending]

theorem not_extending_of_baseLineIn? : ∀ {nodes : List Node}, baseLineIn? nodes = none →
    ∀ n ∈ leavesOf nodes, ¬Extending n
  | [], _ => by simp [leavesOf]
  | node :: nodes, h => by
    rw [baseLineIn?, Option.or_eq_none_iff] at h
    rw [leavesOf, List.forall_mem_append]
    exact ⟨not_extending_of_baseLine? h.1, not_extending_of_baseLineIn? h.2⟩

theorem not_extending_of_baseLineInBranches? : ∀ {branches : List (Branch Node)},
    baseLineInBranches? branches = none → ∀ n ∈ leavesOfBranches branches, ¬Extending n
  | [], _ => by simp [leavesOfBranches]
  | ⟨condition, body⟩ :: branches, h => by
    rw [baseLineInBranches?, Option.or_eq_none_iff] at h
    rw [leavesOfBranches, List.forall_mem_append]
    exact ⟨not_extending_of_baseLineIn? h.1, not_extending_of_baseLineInBranches? h.2⟩

end

theorem base?_cons {node : Node} (hnode : ∀ name line, node ≠ .extending name line)
    (found : Option String) (nodes : List Node) :
    base? found (node :: nodes) =
      match baseLine? node with
      | some line => .error ⟨line, .nestedBase⟩
      | none => base? found nodes := by
  cases node with
  | extending name line => exact absurd rfl (hnode name line)
  | _ => rfl

-- A list of nodes whose base can be told begins with its only base, or with a node that has none inside.
theorem base?_cons_eq_ok {found base : Option String} {node : Node} {nodes : List Node}
    (h : base? found (node :: nodes) = .ok base) :
    (∃ name line, node = .extending name line ∧ found = none ∧ base? (some name) nodes = .ok base) ∨
      baseLine? node = none ∧ base? found nodes = .ok base := by
  by_cases hnode : ∃ name line, node = .extending name line
  · obtain ⟨name, line, rfl⟩ := hnode
    simp only [base?] at h
    cases found with
    | some other => cases h
    | none => exact .inl ⟨name, line, rfl, rfl, h⟩
  · simp only [not_exists] at hnode
    rw [base?_cons hnode] at h
    cases hline : baseLine? node with
    | some line =>
      rw [hline] at h
      cases h
    | none =>
      rw [hline] at h
      exact .inr ⟨rfl, h⟩

-- A text that names its base at the top has no such reference in its blocks, and a text without
-- a base has none at all.
theorem not_extending_of_base? {found base : Option String} {nodes : List Node}
    (h : base? found nodes = .ok base) :
    (∀ n ∈ leavesOf (topBlocksOf nodes), ¬Extending n) ∧
      (base = none → found = none ∧ ∀ n ∈ leavesOf nodes, ¬Extending n) := by
  induction nodes generalizing found with
  | nil =>
    rw [base?] at h
    cases h
    simp [topBlocksOf, leavesOf]
  | cons node nodes ih =>
    rcases base?_cons_eq_ok h with ⟨name, line, rfl, rfl, h⟩ | ⟨hline, h⟩
    · obtain ⟨hblocks, hnone⟩ := ih h
      refine ⟨by simpa [topBlocksOf, topBlocks] using hblocks, fun hbase => ?_⟩
      exact absurd (hnone hbase).1 (by simp)
    · obtain ⟨hblocks, hnone⟩ := ih h
      have hleaves := not_extending_of_baseLine? hline
      refine ⟨?_, fun hbase => ⟨(hnone hbase).1, ?_⟩⟩
      · rw [topBlocksOf, leavesOf_append, List.forall_mem_append]
        exact ⟨fun n hn => hleaves n (leaves_topBlocks node hn), hblocks⟩
      · rw [leavesOf, List.forall_mem_append]
        exact ⟨hleaves, (hnone hbase).2⟩

theorem extending_mem_of_base? {found : Option String} {nodes : List Node} {name : String}
    (h : base? found nodes = .ok (some name)) :
    found = some name ∨ ∃ line, Node.extending name line ∈ leavesOf nodes := by
  induction nodes generalizing found with
  | nil =>
    rw [base?] at h
    exact .inl (Except.ok.inj h)
  | cons node nodes ih =>
    have hlater : (∃ line, Node.extending name line ∈ leavesOf nodes) →
        ∃ line, Node.extending name line ∈ leavesOf (node :: nodes) := by
      rintro ⟨line, hline⟩
      exact ⟨line, by rw [leavesOf]; exact List.mem_append_right _ hline⟩
    rcases base?_cons_eq_ok h with ⟨other, line, rfl, rfl, h⟩ | ⟨-, h⟩
    · rcases ih h with he | hline
      · cases he
        exact .inr ⟨line, by simp [leavesOf, leaves]⟩
      · exact .inr (hlater hline)
    · exact (ih h).imp_right hlater

mutual

theorem including_mem_leaves {name : String} : ∀ {node : Node}, name ∈ includes node →
    ∃ line, Node.including name line ∈ leaves node
  | .including other line, h => by
    rw [includes, List.mem_singleton] at h
    subst h
    exact ⟨line, by simp [leaves]⟩
  | .choice branches none, h => by
    rw [includes] at h
    rw [leaves]
    exact including_mem_leavesOfBranches h
  | .choice branches (some body), h => by
    rw [includes, List.mem_append] at h
    rw [leaves]
    rcases h with h | h
    · obtain ⟨line, hline⟩ := including_mem_leavesOfBranches h
      exact ⟨line, List.mem_append_left _ hline⟩
    · obtain ⟨line, hline⟩ := including_mem_leavesOf h
      exact ⟨line, List.mem_append_right _ hline⟩
  | .loop kind header body, h => by
    rw [includes] at h
    rw [leaves]
    exact including_mem_leavesOf h
  | .block other body, h => by
    rw [includes] at h
    rw [leaves]
    exact including_mem_leavesOf h
  | .text _, h | .echo _ _ _, h | .parent, h | .extending _ _, h => by simp [includes] at h

theorem including_mem_leavesOf {name : String} : ∀ {nodes : List Node}, name ∈ includesOf nodes →
    ∃ line, Node.including name line ∈ leavesOf nodes
  | [], h => by simp [includesOf] at h
  | node :: nodes, h => by
    rw [includesOf, List.mem_append] at h
    rw [leavesOf]
    rcases h with h | h
    · obtain ⟨line, hline⟩ := including_mem_leaves h
      exact ⟨line, List.mem_append_left _ hline⟩
    · obtain ⟨line, hline⟩ := including_mem_leavesOf h
      exact ⟨line, List.mem_append_right _ hline⟩

theorem including_mem_leavesOfBranches {name : String} : ∀ {branches : List (Branch Node)},
    name ∈ includesOfBranches branches → ∃ line, Node.including name line ∈ leavesOfBranches branches
  | [], h => by simp [includesOfBranches] at h
  | ⟨condition, body⟩ :: branches, h => by
    rw [includesOfBranches, List.mem_append] at h
    rw [leavesOfBranches]
    rcases h with h | h
    · obtain ⟨line, hline⟩ := including_mem_leavesOf h
      exact ⟨line, List.mem_append_left _ hline⟩
    · obtain ⟨line, hline⟩ := including_mem_leavesOfBranches h
      exact ⟨line, List.mem_append_right _ hline⟩

end

-- The text of a template has a directive that includes or extends a name.
def Template.Directs (c : Compiler) (a : Template) (name : String) : Prop :=
  ∃ nodes line, readSource c a.text = .ok nodes ∧
    (Node.including name line ∈ leavesOf nodes ∨ Node.extending name line ∈ leavesOf nodes)

theorem directs_of_mem_names {c : Compiler} {a : Template} {p : Plan} {name : String}
    (hp : plan c a.text = .ok p) (hname : name ∈ p.names) : a.Directs c name := by
  unfold plan at hp
  split at hp
  · cases hp
  · next nodes hnodes =>
    split at hp
    · cases hp
    · next base hbase =>
      cases hp
      cases base with
      | none =>
        obtain ⟨line, hline⟩ := including_mem_leavesOf hname
        exact ⟨nodes, line, hnodes, .inl hline⟩
      | some base =>
        rcases List.mem_append.mp hname with hname | hname
        · obtain ⟨line, hline⟩ := including_mem_leavesOf hname
          exact ⟨nodes, line, hnodes, .inl (leaves_topBlocksOf nodes hline)⟩
        · cases List.mem_singleton.mp hname
          rcases extending_mem_of_base? hbase with he | ⟨line, hline⟩
          · cases he
          · exact ⟨nodes, line, hnodes, .inr hline⟩

end TemplateEngine.Compile
