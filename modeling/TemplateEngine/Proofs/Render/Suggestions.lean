import Mathlib
import TemplateEngine.Proofs.Render.Strictness
import TemplateEngine.Proofs.Text.Distance
import TemplateEngine.Proofs.Text.Suggestions

-- What is suggested where a name is unbound. The candidates are the names of all frames in scope, so
-- one that hides another is there twice.
namespace TemplateEngine.Render

open TemplateEngine.Text

-- A rendering that stops at an undefined name suggests the closest of the names in scope there. No name
-- is suggested twice exactly if none before the last suggestion is in scope twice.
theorem suggestions_closest {registry : Registry} {template name : String} {p : Program}
    {bindings : Bindings} {failure : Failure} {suggestions : List String}
    (h : render ⟨registry, true⟩ template p bindings = .error failure)
    (hfault : failure.fault = .undefinedVariable name suggestions) :
    ∃ stop, textOfAll ⟨registry, true⟩ [bindings] p.nodes = .error stop ∧
      Unbound stop.frames name ∧
      (∀ s : String, IsLeast {n | Edits n name.toList s.toList} (distance name.toList s.toList)) ∧
      Closest name (namesInScope stop.frames) suggestions ∧
      (suggestions.Nodup ↔
        ∀ s ∈ suggestions.take (maxSuggestions - 1), (namesInScope stop.frames).count s = 1) := by
  by_cases hversion : p.version = Program.currentVersion
  case neg =>
    unfold render at h
    rw [if_pos hversion] at h
    cases h
    cases hfault
  case pos =>
    rw [render_eq hversion] at h
    cases hstop : textOfAll ⟨registry, true⟩ [bindings] p.nodes with
    | ok text =>
      rw [hstop] at h
      cases h
    | error stop =>
      rw [hstop] at h
      cases h
      have hnamed : stop.fault = .undefinedVariable name suggestions := hfault
      have hundefined : stop.Undefined := by
        unfold Stop.Undefined
        rw [hnamed]
        trivial
      obtain ⟨unbound, hmissing, hunbound⟩ :=
        (textOfAll_tightens registry [bindings] p.nodes).missing_of_undefined hstop hundefined
      obtain ⟨rfl, rfl⟩ := Fault.undefinedVariable.inj (hnamed.symm.trans hmissing)
      refine ⟨stop, rfl, hunbound, fun s => isLeast_distance _ _, ?_, ?_⟩
      · exact closest_suggest name (namesInScope stop.frames)
      · exact nodup_suggest_iff name (namesInScope stop.frames)

-- The variable of the loop hides a name that is bound outside, and both are suggested.
private def hidingLoop : Program := .ofNodes [.loop .foreach "items as item" [.echo "itm" [] true]]

private def hiddenItem : Bindings := [("item", .string "x"), ("items", .array [.string "a"])]

theorem suggestions_closest_hiding :
    render ⟨.basic, true⟩ "page" hidingLoop hiddenItem =
        .error ⟨"page", .undefinedVariable "itm" ["item", "item"]⟩ ∧
      ∃ stop, textOfAll ⟨.basic, true⟩ [hiddenItem] hidingLoop.nodes = .error stop ∧
        Closest "itm" (namesInScope stop.frames) ["item", "item"] ∧
        ∃ s ∈ ["item", "item"].take (maxSuggestions - 1), (namesInScope stop.frames).count s ≠ 1 := by
  have h : render ⟨.basic, true⟩ "page" hidingLoop hiddenItem =
      .error ⟨"page", .undefinedVariable "itm" ["item", "item"]⟩ := by
    cbv
  obtain ⟨stop, hstop, -, -, hclosest, hnodup⟩ := suggestions_closest h rfl
  have htwice : ¬["item", "item"].Nodup := by decide
  rw [hnodup] at htwice
  push Not at htwice
  exact ⟨h, stop, hstop, hclosest, htwice⟩

end TemplateEngine.Render
