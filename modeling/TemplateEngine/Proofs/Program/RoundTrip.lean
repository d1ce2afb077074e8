import TemplateEngine.Program.Code
import TemplateEngine.Proofs.Cache.Records
import TemplateEngine.Proofs.Program.Leaves

-- The code of a program gives the program back, unless it is nested deeper than the reader goes.
namespace TemplateEngine

open Json Document

namespace Node

-- Lines are counted in machine words.
def Sized : Node → Prop
  | extending _ line | including _ line => line < wordLimit
  | _ => True

def encodeBranch (branch : Branch Node) : Document :=
  .record [("condition", .text branch.condition), ("body", .array (encodeAll branch.body))]

theorem encodeBranches_eq_map (branches : List (Branch Node)) :
    encodeBranches branches = branches.map encodeBranch := by
  induction branches with
  | nil => simp [encodeBranches]
  | cons branch branches ih => simp [encodeBranches, encodeBranch, ih]

section Encoding

theorem textual_natural {n : Nat} : (Document.natural n).Textual ↔ n < wordLimit := by
  simp [Document.natural, Textual]

mutual

theorem textual_encode : ∀ {node : Node}, (∀ n ∈ leaves node, n.Sized) → (encode node).Textual
  | text content, _ => by
    rw [encode, textual_record]
    simp [textual_text]
  | echo expr filters escape, _ => by
    rw [encode, textual_record]
    simp [textual_text, textual_texts, Textual]
  | choice branches none, h => by
    rw [leaves] at h
    have hbranches := textual_encodeBranches h
    rw [encode, textual_record]
    simp [textual_text, Textual, hbranches]
  | choice branches (some body), h => by
    rw [leaves, List.forall_mem_append] at h
    have hbranches := textual_encodeBranches h.1
    have hbody := textual_encodeAll h.2
    rw [encode, textual_record]
    simp [textual_text, Textual, hbranches, hbody]
  | loop kind header body, h => by
    rw [leaves] at h
    have hbody := textual_encodeAll h
    rw [encode, textual_record]
    simp [textual_text, Textual, hbody]
  | block name body, h => by
    rw [leaves] at h
    have hbody := textual_encodeAll h
    rw [encode, textual_record]
    simp [textual_text, Textual, hbody]
  | parent, _ => by
    rw [encode, textual_record]
    simp [textual_text]
  | extending name line, h | including name line, h => by
    have hline : line < wordLimit := by simpa [leaves, Sized] using h
    rw [encode, textual_record]
    simp [textual_text, textual_natural, hline]

theorem textual_encodeAll : ∀ {nodes : List Node}, (∀ n ∈ leavesOf nodes, n.Sized) →
    TextualItems (encodeAll nodes)
  | [], _ => by simp [encodeAll, TextualItems]
  | node :: nodes, h => by
    rw [leavesOf, List.forall_mem_append] at h
    rw [encodeAll]
    exact ⟨textual_encode h.1, textual_encodeAll h.2⟩

theorem textual_encodeBranches : ∀ {branches : List (Branch Node)},
    (∀ n ∈ leavesOfBranches branches, n.Sized) → TextualItems (encodeBranches branches)
  | [], _ => by simp [encodeBranches, TextualItems]
  | ⟨condition, body⟩ :: branches, h => by
    rw [leavesOfBranches, List.forall_mem_append] at h
    have hbody := textual_encodeAll h.1
    rw [encodeBranches]
    refine ⟨?_, textual_encodeBranches h.2⟩
    rw [textual_record]
    simp [textual_text, Textual, hbody]

end

end Encoding

section Decoding

variable {room : Nat} {inner : Bool} {body : List Node} {branches : List (Branch Node)}

-- A record that says its kind is taken apart into the kind and the rest.
theorem tagged?_record (inner : Bool) (kind : String) {members : List (String × Document)}
    (hmembers : ∀ m ∈ members, m.1 ≠ "op") :
    tagged? inner (.record (("op", .text kind) :: members)) = some (kind, .record members) := by
  cases inner <;>
    simp [record, tagged?, fieldOf, kind?, Document.text, Document.string?,
      filter_absent hmembers, filter_others hmembers]

theorem decode?_choice (otherwise : Option (List Node))
    (hbranches : ∀ branch ∈ branches, (encodeAll branch.body).mapM (decode? room true) = some branch.body)
    (hotherwise : ∀ body ∈ otherwise, (encodeAll body).mapM (decode? room true) = some body) :
    decode? (room + 1) inner (encode (choice branches otherwise)) = some (choice branches otherwise) := by
  have hfields : ∀ d : Document, (record [("branches", .array (encodeBranches branches)),
      ("otherwise", d)]).fields? ["branches", "otherwise"] 0 =
        some [some (.array (encodeBranches branches)), some d] :=
    fun d => fields?_record rfl (by simp) 0
  have hbranch : ∀ branch, (encodeBranch branch).fields? ["condition", "body"] 0 =
      some [some (.text branch.condition), some (.array (encodeAll branch.body))] :=
    fun branch => fields?_record rfl (by simp) 0
  cases otherwise with
  | none =>
    rw [encode, decode?, tagged?_record _ _ (by simp)]
    simp only [Option.bind_eq_bind, Option.bind_some, hfields, array?]
    rw [encodeBranches_eq_map, mapM_map_some]
    · rfl
    · intro branch hmem
      simp only [hbranch, Option.bind_some, string?_text, hbranches branch hmem]
      rfl
  | some body =>
    rw [encode, decode?, tagged?_record _ _ (by simp)]
    simp only [Option.bind_eq_bind, Option.bind_some, hfields, array?, hotherwise body rfl]
    rw [encodeBranches_eq_map, mapM_map_some]
    · rfl
    · intro branch hmem
      simp only [hbranch, Option.bind_some, string?_text, hbranches branch hmem]
      rfl

theorem decode?_loop (kind : LoopKind) (header : String)
    (hbody : (encodeAll body).mapM (decode? room true) = some body) :
    decode? (room + 1) inner (encode (loop kind header body)) = some (loop kind header body) := by
  have hfields : (record [("kind", .text kind.code), ("header", .text header),
      ("body", .array (encodeAll body))]).fields? ["kind", "header", "body"] 0 =
        some [some (.text kind.code), some (.text header), some (.array (encodeAll body))] :=
    fields?_record rfl (by simp) 0
  have hkind : loopKind? (.text kind.code) = some kind := by cases kind <;> rfl
  rw [encode, decode?, tagged?_record _ _ (by simp)]
  simp only [Option.bind_eq_bind, Option.bind_some, hfields, hkind, string?_text, array?, hbody]
  rfl

theorem decode?_block (name : String)
    (hbody : (encodeAll body).mapM (decode? room true) = some body) :
    decode? (room + 1) inner (encode (block name body)) = some (block name body) := by
  have hfields : (record [("name", .text name), ("body", .array (encodeAll body))]).fields?
      ["name", "body"] 0 = some [some (.text name), some (.array (encodeAll body))] :=
    fields?_record rfl (by simp) 0
  rw [encode, decode?, tagged?_record _ _ (by simp)]
  simp only [Option.bind_eq_bind, Option.bind_some, hfields, string?_text, array?, hbody]
  rfl

mutual

-- A tree is decoded from its code with room for as many levels as the code has.
theorem decode?_encode : ∀ (node : Node) (room : Nat) (inner : Bool), (encode node).depth ≤ room →
    decode? room inner (encode node) = some node
  | node, 0, inner, h => by
    cases node with
    | choice branches otherwise => cases otherwise <;> simp [encode, record, depth] at h
    | _ => simp [encode, record, depth] at h
  | text content, room + 1, inner, _ => by
    have hfields : (record [("text", .text content)]).fields? ["text"] 0 = some [some (.text content)] :=
      fields?_record rfl (by simp) 0
    rw [encode, decode?, tagged?_record _ _ (by simp)]
    simp only [Option.bind_eq_bind, Option.bind_some, hfields, string?_text]
    rfl
  | echo expr filters escape, room + 1, inner, _ => by
    have hfields : (record [("expr", .text expr), ("filters", .texts filters),
        ("escape", .bool escape)]).fields? ["expr", "filters", "escape"] 0 =
          some [some (.text expr), some (.texts filters), some (.bool escape)] :=
      fields?_record rfl (by simp) 0
    rw [encode, decode?, tagged?_record _ _ (by simp)]
    simp only [Option.bind_eq_bind, Option.bind_some, hfields, string?_text, texts?_texts, bool?]
    rfl
  | choice branches none, room + 1, inner, h => by
    simp only [encode, record, depth, depthMembers, List.map_cons, List.map_nil] at h
    have hbranches := decodeAll_encodeBranches branches room (by omega)
    exact decode?_choice none hbranches (fun _ hnone => nomatch hnone)
  | choice branches (some body), room + 1, inner, h => by
    simp only [encode, record, depth, depthMembers, List.map_cons, List.map_nil] at h
    have hbranches := decodeAll_encodeBranches branches room (by omega)
    have hbody := mapM_encodeAll body room true (by omega)
    refine decode?_choice (some body) hbranches ?_
    rintro other ⟨⟩
    exact hbody
  | loop kind header body, room + 1, inner, h => by
    simp only [encode, record, depth, depthMembers, List.map_cons, List.map_nil] at h
    exact decode?_loop kind header (mapM_encodeAll body room true (by omega))
  | block name body, room + 1, inner, h => by
    simp only [encode, record, depth, depthMembers, List.map_cons, List.map_nil] at h
    exact decode?_block name (mapM_encodeAll body room true (by omega))
  | parent, room + 1, inner, _ => by
    have hfields : (record []).fields? [] 0 = some [] := fields?_record rfl (by simp) 0
    rw [encode, decode?, tagged?_record _ _ (by simp)]
    simp only [Option.bind_eq_bind, Option.bind_some, hfields]
    rfl
  | extending name line, room + 1, inner, _ | including name line, room + 1, inner, _ => by
    have hfields : (record [("name", .text name), ("line", .natural line)]).fields? ["name", "line"] 0 =
        some [some (.text name), some (.natural line)] :=
      fields?_record rfl (by simp) 0
    rw [encode, decode?, tagged?_record _ _ (by simp)]
    simp only [Option.bind_eq_bind, Option.bind_some, hfields, string?_text, natural?_natural]
    rfl

theorem mapM_encodeAll : ∀ (nodes : List Node) (room : Nat) (inner : Bool),
    depthItems (encodeAll nodes) ≤ room → (encodeAll nodes).mapM (decode? room inner) = some nodes
  | [], _, _, _ => by simp [encodeAll]
  | node :: nodes, room, inner, h => by
    simp only [encodeAll, depthItems] at h
    have hnode := decode?_encode node room inner (by omega)
    have hnodes := mapM_encodeAll nodes room inner (by omega)
    simp [encodeAll, List.mapM_cons, hnode, hnodes]

theorem decodeAll_encodeBranches : ∀ (branches : List (Branch Node)) (room : Nat),
    depthItems (encodeBranches branches) ≤ room →
      ∀ branch ∈ branches, (encodeAll branch.body).mapM (decode? room true) = some branch.body
  | [], _, _ => by simp
  | ⟨condition, body⟩ :: branches, room, h => by
    simp only [encodeBranches, record, depth, depthItems, depthMembers, List.map_cons, List.map_nil] at h
    have hbranches := decodeAll_encodeBranches branches room (by omega)
    exact List.forall_mem_cons.mpr ⟨mapM_encodeAll body room true (by omega), hbranches⟩

end

end Decoding

end Node

namespace Program

-- A program whose numbers fit into the fields of their codes.
def Sized (p : Program) : Prop := p.version < versionLimit ∧ ∀ n ∈ Node.leavesOf p.nodes, n.Sized

theorem textual_encode {p : Program} (h : p.Sized) : p.encode.Textual := by
  have hnodes := Node.textual_encodeAll h.2
  have hversion : p.version < wordLimit := Nat.lt_trans h.1 (by decide)
  rw [encode, textual_record]
  simp [Node.textual_natural, Textual, hnodes, hversion]

theorem depth_encode (p : Program) : p.encode.depth = depthItems (Node.encodeAll p.nodes) + 2 := by
  simp [encode, record, depth, depthMembers, natural]

-- The reader measures each node of a program for itself.
theorem forall_shallow_iff {ds : List Document} (h : TextualItems ds) :
    (∀ d ∈ ds, d.intact = true ∧ d.depth + 2 ≤ maxDepth) ↔ depthItems ds + 2 ≤ maxDepth := by
  induction ds with
  | nil => simp [depthItems, maxDepth]
  | cons d ds ih =>
    rw [TextualItems] at h
    rw [List.forall_mem_cons, ih h.2]
    simp only [h.1.intact, depthItems, true_and]
    omega

theorem decode?_encode {p : Program} (h : p.Sized) :
    decode? p.encode = if p.encode.depth ≤ maxDepth then some p else none := by
  obtain ⟨version, nodes⟩ := p
  have hfields : (encode ⟨version, nodes⟩).fields? ["version", "nodes"] 0 =
      some [some (.natural version), some (.array (Node.encodeAll nodes))] := by
    simp [encode, record, fields?, fieldOf]
  have hversion : version < versionLimit := h.1
  have hshallow := forall_shallow_iff (Node.textual_encodeAll h.2)
  rw [decode?, hfields, depth_encode]
  by_cases hdepth : depthItems (Node.encodeAll nodes) + 2 ≤ maxDepth
  · have hnodes : (Node.encodeAll nodes).mapM (Node.decode? maxDepth false) = some nodes :=
      Node.mapM_encodeAll nodes maxDepth false (by omega)
    simpa [natural, natural?, array?, hversion, hdepth, hnodes] using hshallow.mpr hdepth
  · have hdeep := mt hshallow.mp hdepth
    simp only [natural, natural?, array?]
    simp [hdeep, hdepth]

-- Code is read as the document it was written from, and as the program unless the document is
-- nested too deep.
theorem ofCode?_code {p : Program} (h : p.Sized) :
    Document.read? p.code = some p.encode ∧
      ofCode? p.code = if p.encode.depth ≤ maxDepth then some p else none := by
  have hread : Document.read? p.code = some p.encode := read?_toText (textual_encode h)
  refine ⟨hread, ?_⟩
  rw [ofCode?, hread, Option.bind_some, decode?_encode h]

-- Every kind of node, below a number of blocks that take two levels each.
def nested : Nat → List Node
  | 0 =>
    [.echo "x['é']" ["upper"] true, .choice [⟨"c", [.parent]⟩] (some []), .loop .forIn "v in m" [],
      .extending "base" 1, .including "rest" 18446744073709551615]
  | n + 1 => [.text "a \"\\ \x01 \n", .block "b" (nested n)]

theorem nested_sized (n : Nat) : ∀ node ∈ Node.leavesOf (nested n), node.Sized := by
  induction n with
  | zero => simp [nested, Node.leavesOf, Node.leaves, Node.leavesOfBranches, Node.Sized, wordLimit]
  | succ n ih => simpa [nested, Node.leavesOf, Node.leaves, Node.Sized] using ih

theorem depth_nested (n : Nat) : depthItems (Node.encodeAll (nested n)) = 2 * n + 5 := by
  induction n with
  | zero => rfl
  | succ n ih =>
    simp only [nested, Node.encodeAll, Node.encode, record, List.map_cons, List.map_nil, depthItems, depth,
      depthMembers, Document.text, ih]
    omega

theorem ofCode?_code_nested :
    ofCode? (code ⟨4294967295, nested 60⟩) = some ⟨4294967295, nested 60⟩ ∧
      ofCode? (code ⟨4294967295, nested 61⟩) = none := by
  have hsized : ∀ n, Sized ⟨4294967295, nested n⟩ := fun n =>
    ⟨(by decide : 4294967295 < versionLimit), nested_sized n⟩
  have hdepth : ∀ n, (encode ⟨4294967295, nested n⟩).depth = 2 * n + 7 := fun n => by
    rw [depth_encode, depth_nested]
  have hread := (ofCode?_code (hsized 60)).2
  have hdeep := (ofCode?_code (hsized 61)).2
  rw [hdepth] at hread hdeep
  exact ⟨hread, hdeep⟩

end Program

end TemplateEngine
