import TemplateEngine.Compile.Filters
import TemplateEngine.Filter.Builtin
import TemplateEngine.Proofs.Program.Leaves
import TemplateEngine.Proofs.Render.Meaning
import TemplateEngine.Proofs.Runs
import Mathlib.Data.List.Infix

-- Text that is safe to stand between tags and in quoted attributes, and the echoes that write no
-- other text.
namespace TemplateEngine

namespace Html

def entities : List (List Char) :=
  ["&amp;".toList, "&lt;".toList, "&gt;".toList, "&quot;".toList, "&#039;".toList]

-- Text without angle brackets and quotes, in which each ampersand starts an entity.
structure Inert (cs : List Char) : Prop where
  marks : ∀ c ∈ cs, c ∉ ['<', '>', '"', '\'']
  ampersands : ∀ rest, '&' :: rest <:+ cs → ∃ entity ∈ entities, entity <+: '&' :: rest

theorem inert_nil : Inert [] where
  marks := by simp
  ampersands := by simp

theorem Inert.append {cs ds : List Char} (h : Inert cs) (h' : Inert ds) : Inert (cs ++ ds) where
  marks := List.forall_mem_append.mpr ⟨h.marks, h'.marks⟩
  ampersands := by
    rintro rest ⟨before, hsplit⟩
    rcases List.append_eq_append_iff.mp hsplit with ⟨here, hcs, hrest⟩ | ⟨later, -, hds⟩
    · cases here with
      | nil => exact h'.ampersands rest ⟨[], hrest⟩
      | cons c here =>
        simp only [List.cons_append, List.cons.injEq] at hrest
        obtain ⟨rfl, rfl⟩ := hrest
        obtain ⟨entity, hentity, hstarts⟩ := h.ampersands here ⟨before, hcs.symm⟩
        exact ⟨entity, hentity, hstarts.trans (List.prefix_append _ ds)⟩
    · exact h'.ampersands rest ⟨later, hds.symm⟩

theorem inert_singleton {c : Char} (hc : ¬c = '&' ∧ ¬c = '<' ∧ ¬c = '>' ∧ ¬c = '"' ∧ ¬c = '\'') :
    Inert [c] where
  marks := by simp [hc]
  ampersands := by
    intro rest hrest
    have hamp : '&' = c := by simpa using hrest.subset (List.mem_cons_self)
    exact absurd hamp.symm hc.1

theorem inert_of_mem_entities : ∀ entity ∈ entities, Inert entity := by
  intro entity hentity
  have hlisted := hentity
  simp only [entities, List.mem_cons, List.not_mem_nil, or_false] at hlisted
  have hmarks : ∀ c ∈ entity, c ∉ ['<', '>', '"', '\''] := by
    rcases hlisted with rfl | rfl | rfl | rfl | rfl <;> simp
  -- An entity has no ampersand but the first.
  have hone : ∀ rest, '&' :: rest <:+ entity → '&' :: rest = entity := by
    intro rest hrest
    rcases hlisted with rfl | rfl | rfl | rfl | rfl <;> simpa [List.suffix_cons_iff] using hrest
  exact ⟨hmarks, fun rest hrest => ⟨entity, hentity, by rw [hone rest hrest]⟩⟩

theorem inert_escapeChar (c : Char) : Inert (escapeChar c) := by
  by_cases hc : c ∈ ['&', '<', '>', '"', '\'']
  · refine inert_of_mem_entities _ ?_
    simp only [List.mem_cons, List.not_mem_nil, or_false] at hc
    rcases hc with rfl | rfl | rfl | rfl | rfl <;> simp [escapeChar, entities]
  · simp only [List.mem_cons, List.not_mem_nil, or_false, not_or] at hc
    simpa [escapeChar, hc] using inert_singleton hc

theorem inert_escape (cs : List Char) : Inert (escape cs) := by
  induction cs with
  | nil => exact inert_nil
  | cons c cs ih =>
    rw [escape, List.flatMap_cons]
    exact (inert_escapeChar c).append ih

end Html

namespace Registry

theorem get?_standard_escape {name : String} (h : Compile.isEscape name = true) :
    standard.get? name = some (.transform (Filter.onText Html.escape)) := by
  simp only [Compile.isEscape, Bool.or_eq_true, beq_iff_eq] at h
  rcases h with rfl | rfl <;> rfl

end Registry

-- The echo of a program for an echo of a template.
def Compile.settledEcho (autoEscape : Bool) (expr : String) (chain : List String) : Node :=
  .echo expr (chain.filter (· != "raw")) (escapes autoEscape chain)

namespace Render

open Compile Html

variable {rules : Rules} {frames : List Bindings}

-- A filter whose results show as inert text.
def InertResults (f : Value → Except String Value) : Prop := ∀ v w, f v = .ok w → Inert w.text.toList

theorem inertResults_escape : InertResults (Filter.onText Html.escape) := by
  intro v w h
  cases h
  simpa [Value.text] using inert_escape v.text.toList

theorem inert_shownText (v : Value) : Inert (shownText true v).toList := by
  simpa [shownText] using inert_escape v.text.toList

-- What a chain ends with is the result of its last filter.
theorem foldlM_filtered_getLast? {filters : List String} {v w : Value} {name : String}
    (hname : name ∈ filters.getLast?) (h : filters.foldlM (filtered rules) v = .ok w) :
    ∃ u, filtered rules u name = .ok w := by
  obtain ⟨before, rfl⟩ := List.getLast?_eq_some_iff.mp hname
  rw [List.foldlM_append] at h
  obtain ⟨u, -, h⟩ := bind_eq_ok h
  obtain ⟨w', hw, h⟩ := bind_eq_ok h
  cases h
  exact ⟨u, hw⟩

-- Whether a chain that ends with an escaping filter does end with one that escapes, should another
-- filter stand in for that of the engine.
def EndsInert (extra : List (String × (Value → Except String Value))) (chain : List String) : Prop :=
  ∀ name ∈ chain.getLast?, isEscape name = true → name ∈ extra.map Prod.fst →
    ∀ f, (Registry.standard.addAll extra).get? name = some (.transform f) → InertResults f

theorem filter_raw_eq_self {chain : List String} (hraw : "raw" ∉ chain) : chain.filter (· != "raw") = chain := by
  rw [List.filter_eq_self]
  intro name hname
  exact bne_iff_ne.mpr fun heq => hraw (heq ▸ hname)

theorem inert_of_settledEcho {extra : List (String × (Value → Except String Value))} {strict : Bool}
    {expr text : String} {chain : List String} (hraw : "raw" ∉ chain)
    (hlast : EndsInert extra chain)
    (htext : textOf ⟨Registry.standard.addAll extra, strict⟩ frames (settledEcho true expr chain) = .ok text) :
    Inert text.toList := by
  have hchain := filter_raw_eq_self hraw
  rw [settledEcho, textOf, hchain] at htext
  obtain ⟨v, -, htext⟩ := bind_eq_ok htext
  obtain ⟨w, hw, htext⟩ := bind_eq_ok htext
  cases htext
  cases hescapes : escapes true chain with
  | true => exact inert_shownText w
  | false =>
    -- The chain ends by escaping.
    simp only [escapes, hchain, Bool.true_and, Bool.and_eq_false_iff, Bool.not_eq_false',
      List.contains_iff_mem, hraw, false_or, Option.any_eq_true] at hescapes
    obtain ⟨name, hname, hescape⟩ := hescapes
    obtain ⟨u, hu⟩ := foldlM_filtered_getLast? hname (mapError_eq_ok.mp hw)
    obtain ⟨f, hget, hinert⟩ : ∃ f,
        (Registry.standard.addAll extra).get? name = some (.transform f) ∧ InertResults f := by
      rcases Registry.get?_addAll Registry.standard extra name with ⟨f, hf, hget⟩ | hget
      · exact ⟨f, hget, hlast name hname hescape (List.mem_map_of_mem hf) f hget⟩
      · exact ⟨_, hget.trans (Registry.get?_standard_escape hescape), inertResults_escape⟩
    simp only [filtered, hget, mapError_eq_ok] at hu
    simpa [shownText] using hinert u w hu

-- A leaf of a program and what it wrote.
structure Piece where
  leaf : Node
  text : String

-- Whether a text was written piece by piece by some leaves.
def Pieced (rules : Rules) (leaves : List Node) (out : String) : Prop :=
  ∃ pieces : List Piece, out = String.join (pieces.map (·.text)) ∧
    ∀ piece ∈ pieces, piece.leaf ∈ leaves ∧ ∃ frames, textOf rules frames piece.leaf = .ok piece.text

variable {written others : List Node} {out more : String}

theorem pieced_empty : Pieced rules written "" := ⟨[], rfl, by simp⟩

theorem pieced_leaf {leaf : Node} (hleaf : leaf ∈ written) (htext : textOf rules frames leaf = .ok out) :
    Pieced rules written out :=
  ⟨[⟨leaf, out⟩], by simp, by simpa using ⟨hleaf, frames, htext⟩⟩

theorem Pieced.mono (h : Pieced rules written out) (hsub : written ⊆ others) : Pieced rules others out := by
  obtain ⟨pieces, hout, hpieces⟩ := h
  exact ⟨pieces, hout, fun piece hpiece => ⟨hsub (hpieces piece hpiece).1, (hpieces piece hpiece).2⟩⟩

theorem Pieced.append (h : Pieced rules written out) (h' : Pieced rules written more) :
    Pieced rules written (out ++ more) := by
  obtain ⟨pieces, hout, hpieces⟩ := h
  obtain ⟨pieces', hmore, hpieces'⟩ := h'
  refine ⟨pieces ++ pieces', ?_, List.forall_mem_append.mpr ⟨hpieces, hpieces'⟩⟩
  rw [hout, hmore, List.map_append, String.join_append]

theorem pieced_join {texts : List String} (h : ∀ text ∈ texts, Pieced rules written text) :
    Pieced rules written (String.join texts) := by
  induction texts with
  | nil => exact pieced_empty
  | cons text texts ih =>
    rw [List.forall_mem_cons] at h
    rw [String.join_cons]
    exact h.1.append (ih h.2)

open Node

mutual

-- A node writes what its leaves write.
theorem pieced_textOf (rules : Rules) : ∀ {node : Node} {frames : List Bindings} {out : String},
    textOf rules frames node = .ok out → Pieced rules (leaves node) out
  | .choice branches none, frames, out, h => by
    rw [textOf] at h
    obtain ⟨taken, htaken, h⟩ := bind_eq_ok h
    cases h
    rw [leaves]
    have hpieced := pieced_textOfBranches rules htaken
    cases taken with
    | none => exact pieced_empty
    | some chosen => exact hpieced chosen rfl
  | .choice branches (some body), frames, out, h => by
    rw [textOf] at h
    obtain ⟨taken, htaken, h⟩ := bind_eq_ok h
    rw [leaves]
    have hpieced := pieced_textOfBranches rules htaken
    cases taken with
    | none => exact (pieced_textOfAll rules h).mono (List.subset_append_right _ _)
    | some chosen =>
      cases h
      exact (hpieced _ rfl).mono (List.subset_append_left _ _)
  | .loop kind header body, frames, out, h => by
    rw [textOf] at h
    obtain ⟨parsed, -, h⟩ := bind_eq_ok h
    obtain ⟨v, -, h⟩ := bind_eq_ok h
    obtain ⟨items, -, h⟩ := bind_eq_ok h
    obtain ⟨rounds, hrounds, h⟩ := bind_eq_ok h
    cases h
    rw [leaves]
    refine pieced_join fun text htext => ?_
    obtain ⟨item, -, hround⟩ := mem_of_mapM_eq_ok hrounds text htext
    exact pieced_textOfAll rules hround
  | .block name body, frames, out, h => by
    rw [textOf] at h
    rw [leaves]
    exact pieced_textOfAll rules h
  | .text _, frames, out, h | .echo _ _ _, frames, out, h | .parent, frames, out, h
  | .extending _ _, frames, out, h | .including _ _, frames, out, h =>
    pieced_leaf (by simp [leaves]) h

theorem pieced_textOfAll (rules : Rules) : ∀ {nodes : List Node} {frames : List Bindings} {out : String},
    textOfAll rules frames nodes = .ok out → Pieced rules (leavesOf nodes) out
  | [], frames, out, h => by
    rw [textOfAll] at h
    cases h
    exact pieced_empty
  | node :: nodes, frames, out, h => by
    rw [textOfAll] at h
    obtain ⟨first, hfirst, h⟩ := bind_eq_ok h
    obtain ⟨others, hothers, h⟩ := bind_eq_ok h
    cases h
    rw [leavesOf]
    exact ((pieced_textOf rules hfirst).mono (List.subset_append_left _ _)).append
      ((pieced_textOfAll rules hothers).mono (List.subset_append_right _ _))

theorem pieced_textOfBranches (rules : Rules) :
    ∀ {branches : List (Branch Node)} {frames : List Bindings} {taken : Option String},
      textOfBranches rules frames branches = .ok taken →
        ∀ text ∈ taken, Pieced rules (leavesOfBranches branches) text
  | [], frames, taken, h => by
    rw [textOfBranches] at h
    cases h
    simp
  | ⟨condition, body⟩ :: branches, frames, taken, h => by
    rw [textOfBranches] at h
    obtain ⟨v, -, h⟩ := bind_eq_ok h
    rw [leavesOfBranches]
    split at h
    · obtain ⟨text, htext, h⟩ := bind_eq_ok h
      cases h
      simpa using (pieced_textOfAll rules htext).mono (List.subset_append_left _ _)
    · exact fun text htext =>
        (pieced_textOfBranches rules h text htext).mono (List.subset_append_right _ _)

end

end Render

end TemplateEngine
