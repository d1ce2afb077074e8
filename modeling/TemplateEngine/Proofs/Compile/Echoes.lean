import TemplateEngine.Proofs.Compile.WellFormed
import TemplateEngine.Proofs.Render.Escaping
import TemplateEngine.Proofs.Render.Refinement

-- Where the leaves of a program come from: each was read in a text that the template reaches. So what
-- an echo writes is settled by the chain of filters that stands there.
namespace TemplateEngine.Compile

open Node

variable {registry : Registry} {autoEscape : Bool}

-- An echo of settled nodes is one of the nodes as they were read, settled.
def FromEcho (autoEscape : Bool) (written : List Node) (n : Node) : Prop :=
  ∀ expr filters escape, n = .echo expr filters escape →
    ∃ chain mark, .echo expr chain mark ∈ written ∧ n = settledEcho autoEscape expr chain

theorem Settles.fromEcho {nodes : List Node} {written n : Node}
    (h : Settles registry autoEscape written n) (hmem : written ∈ nodes) :
    FromEcho autoEscape nodes n := by
  intro expr filters escape hn
  cases h with
  | @echo _ chain mark =>
    cases hn
    exact ⟨chain, mark, hmem, rfl⟩
  | same hother => exact absurd hn (hother _ _ _)

-- The nodes that a text is read as, before anything is done with their filters.
def nodesOf (source : String) : List Node :=
  match Markup.read (Markup.stripScripts source.toList) with
  | .ok nodes => nodes
  | .error _ => []

theorem readSource_fromEcho {c : Compiler} {source : String} {nodes : List Node}
    (h : readSource c source = .ok nodes) :
    ∀ n ∈ leavesOf nodes, FromEcho c.options.autoEscape (leavesOf (nodesOf source)) n := by
  unfold readSource at h
  dsimp only at h
  unfold nodesOf
  split at h
  · cases h
  · next read hread =>
    rw [hread]
    intro n hn
    obtain ⟨written, hmem, hsettles⟩ := exists_settles h hn
    exact hsettles.fromEcho hmem

-- Whether an echo stands in a text that a template reaches.
def Writes (c : Compiler) (h : Host) (a : Template) (expr : String) (chain : List String) : Prop :=
  ∃ b mark, Reaches c h a b ∧ .echo expr chain mark ∈ leavesOf (nodesOf b.text)

theorem link_fromEcho {c : Compiler} {h : Host} {stack : List Path} {a : Template} {t t' : Trail}
    {nodes : List Node} (hrun : (link c h stack a.text a.path).run t = .ok (nodes, t')) :
    ∀ n ∈ leavesOf nodes, ∀ expr filters escape, n = .echo expr filters escape →
      ∃ chain, Writes c h a expr chain ∧ n = settledEcho c.options.autoEscape expr chain := by
  refine link_leaves stack a (fun b hb nodes base hnodes _ n hn => .inl ?_) hrun
  intro expr filters escape he
  obtain ⟨chain, mark, hwritten, heq⟩ :=
    readSource_fromEcho hnodes n (leaves_ownNodes nodes base hn) expr filters escape he
  exact ⟨chain, ⟨b, mark, hb, hwritten⟩, heq⟩

open Render Html

-- A piece of what the program of a template writes under filters added to those of the engine. An
-- echo is one of a text that the template reaches, and the chain of filters there settles whether
-- the piece is inert.
structure Accounted (extra : List (String × (Value → Except String Value))) (options : Options)
    (h : Host) (a : Template) (piece : Piece) : Prop where
  written : ∀ expr filters escape, piece.leaf = .echo expr filters escape →
    ∃ chain, Writes ⟨Registry.standard.addAll extra, options⟩ h a expr chain ∧
      piece.leaf = settledEcho true expr chain
  inert : ∀ expr chain, piece.leaf = settledEcho true expr chain → "raw" ∉ chain →
    EndsInert extra chain → Inert piece.text.toList

-- A program that was compiled with escaping on writes piece by piece what its leaves write. A piece
-- of an echo whose chain does not name raw is inert, unless the chain ends with a filter that stands
-- in for the escaping one.
theorem render_accounted (extra : List (String × (Value → Except String Value))) (options : Options)
    (h : Host) (source : String) (path : Option Path) (r : Compiled) (strict : Bool) (template : String)
    (bindings : Bindings) (out : String) (hauto : options.autoEscape = true)
    (hr : compile ⟨Registry.standard.addAll extra, options⟩ h source path = .ok r)
    (hout : render ⟨Registry.standard.addAll extra, strict⟩ template r.program bindings = .ok out) :
    ∃ pieces : List Piece, out = String.join (pieces.map (·.text)) ∧ ∀ piece ∈ pieces,
      piece.leaf ∈ leavesOf r.program.nodes ∧
        (∃ frames, textOf ⟨Registry.standard.addAll extra, strict⟩ frames piece.leaf = .ok piece.text) ∧
        Accounted extra options h ⟨source, path.map h.absolute⟩ piece := by
  obtain ⟨nodes, t, hrun, rfl⟩ := compile_run_ok hr
  rw [render_eq rfl, mapError_eq_ok] at hout
  obtain ⟨pieces, hjoin, hpieces⟩ := pieced_textOfAll _ hout
  refine ⟨pieces, hjoin, fun piece hpiece => ?_⟩
  obtain ⟨hleaf, frames, htext⟩ := hpieces piece hpiece
  refine ⟨hleaf, ⟨frames, htext⟩, fun expr filters escape hecho => ?_,
    fun expr chain hchain hraw hlast => ?_⟩
  · have horigin := link_fromEcho (a := ⟨source, path.map h.absolute⟩) hrun _ hleaf _ _ _ hecho
    rwa [hauto] at horigin
  · rw [hchain] at htext
    exact inert_of_settledEcho hraw hlast htext

-- A page that shows a value with a filter of its own and an escaped one.
private def shoutFilters : List (String × (Value → Except String Value)) :=
  [("shout", Filter.onText (· ++ ['!']))]

private def shoutRegistry : Registry := Registry.standard.addAll shoutFilters

private def shoutPage : String := "\x7b\x7b x | shout \x7d\x7d\x7b\x7b x | e \x7d\x7d"

theorem render_accounted_shout : ∃ r out,
    compile ⟨shoutRegistry, shelfCompiler.options⟩ (shelf []) shoutPage none = .ok r ∧
    render ⟨shoutRegistry, false⟩ "page" r.program [("x", .string "<")] = .ok out ∧
    ∃ pieces : List Piece, out = String.join (pieces.map (·.text)) ∧ ∀ piece ∈ pieces,
      piece.leaf ∈ leavesOf r.program.nodes ∧
        (∃ frames, textOf ⟨shoutRegistry, false⟩ frames piece.leaf = .ok piece.text) ∧
        Accounted shoutFilters shelfCompiler.options (shelf []) ⟨shoutPage, none⟩ piece := by
  have hshown : ((compile ⟨shoutRegistry, shelfCompiler.options⟩ (shelf []) shoutPage none).toOption.bind
      fun r => (render ⟨shoutRegistry, false⟩ "page" r.program [("x", .string "<")]).toOption) =
        some "&lt;!&lt;" := by decide +kernel
  cases hr : compile ⟨shoutRegistry, shelfCompiler.options⟩ (shelf []) shoutPage none with
  | error failure => rw [hr] at hshown; cases hshown
  | ok r =>
    cases hout : render ⟨shoutRegistry, false⟩ "page" r.program [("x", .string "<")] with
    | error failure => simp [hr, hout, Except.toOption] at hshown
    | ok out =>
      exact ⟨r, out, rfl, hout, render_accounted shoutFilters shelfCompiler.options (shelf []) shoutPage none
        r false "page" [("x", .string "<")] out rfl hr hout⟩

-- A filter that stands in for the escaping one has the last word.
example : (textOf ⟨Registry.standard.addAll [("e", .ok)], false⟩ [[("x", .string "<b>")]]
    (settledEcho true "x" ["e"])).toOption = some "<b>" := by decide +kernel

end TemplateEngine.Compile
