import TemplateEngine.Proofs.Render.Escaping

-- Chains of filters that write the same. Escaping at the end of a chain takes the place of the escaping
-- that the engine adds, and a raw filter anywhere in a chain is the same as no escaping by the engine.
namespace TemplateEngine.Render

open Compile

variable {rules : Rules} {chain others : List String}

-- Whether a registry has the escaping filters and the raw one as the engine defines them.
structure Escapes (registry : Registry) : Prop where
  escape : ∀ name, isEscape name = true → registry.get? name = some (.transform (Filter.onText Html.escape))
  raw : registry.get? "raw" = some .raw

-- Filters added to those of the engine leave these three as they are unless they stand in for them.
theorem escapes_addAll {extra : List (String × (Value → Except String Value))}
    (hextra : ∀ name ∈ extra.map Prod.fst, isEscape name = false ∧ name ≠ "raw") :
    Escapes (Registry.standard.addAll extra) := by
  have hkept : ∀ name, (isEscape name = true ∨ name = "raw") →
      (Registry.standard.addAll extra).get? name = Registry.standard.get? name := by
    intro name hname
    rcases Registry.get?_addAll Registry.standard extra name with ⟨f, hf, -⟩ | hget
    · obtain ⟨hescape, hraw⟩ := hextra name (List.mem_map_of_mem hf)
      rcases hname with hname | rfl
      · rw [hescape] at hname
        cases hname
      · exact absurd rfl hraw
    · exact hget
  refine ⟨fun name hname => ?_, ?_⟩
  · rw [hkept name (.inl hname), Registry.get?_standard_escape hname]
  · rw [hkept "raw" (.inr rfl)]
    rfl

-- What the echo of a template does when it is run, or why it cannot be compiled.
def echoed (rules : Rules) (autoEscape : Bool) (source : List Char) (expr : String) (chain : List String) :
    Except Compile.Fault (Run Unit) :=
  (settle rules.registry autoEscape source (.echo expr chain true)).map (run rules)

theorem echoed_eq {autoEscape : Bool} {source : List Char} {expr : String}
    (hknown : ∀ name ∈ chain, rules.registry.contains name = true) :
    echoed rules autoEscape source expr chain = .ok (run rules (settledEcho autoEscape expr chain)) := by
  have hnone : chain.find? (fun f => !rules.registry.contains f) = none := by
    rw [List.find?_eq_none]
    intro name hname
    simp [hknown name hname]
  rw [echoed, settle, hnone]
  rfl

theorem escapes_of_not_mem (hraw : "raw" ∉ chain) :
    escapes true chain = !(chain.getLast?).any isEscape := by
  simp [escapes, filter_raw_eq_self hraw, hraw]

-- The escaping that an echo adds is what an escaping filter at the end of its chain does.
theorem run_echo_concat {name expr : String}
    (hname : rules.registry.get? name = some (.transform (Filter.onText Html.escape))) :
    run rules (.echo expr (chain ++ [name]) false) = run rules (.echo expr chain true) := by
  rw [run, run]
  refine bind_congr fun v => ?_
  rw [List.foldlM_append, bind_assoc]
  refine bind_congr fun w => ?_
  have hlast : [name].foldlM (applyFilter rules) w =
      (pure (.string (String.ofList (Html.escape w.text.toList))) : Run Value) := by
    simp [applyFilter, hname, Filter.onText]
  rw [hlast, pure_bind]
  rfl

theorem run_settledEcho_concat {name expr : String} (hregistry : Escapes rules.registry)
    (hname : isEscape name = true) (hraw : "raw" ∉ chain)
    (hlast : ∀ last ∈ chain.getLast?, isEscape last = false) :
    run rules (settledEcho true expr (chain ++ [name])) = run rules (settledEcho true expr chain) := by
  have hname' : "raw" ∉ chain ++ [name] := by
    rw [List.mem_append, List.mem_singleton]
    rintro (hmem | rfl)
    · exact hraw hmem
    · cases hname
  have hends : escapes true (chain ++ [name]) = false := by
    simp [escapes_of_not_mem hname', hname]
  have hadds : escapes true chain = true := by
    rw [escapes_of_not_mem hraw, Bool.not_eq_true', Option.any_eq_false]
    exact fun last hmem => by simp [hlast last hmem]
  rw [settledEcho, settledEcho, filter_raw_eq_self hraw, filter_raw_eq_self hname', hends, hadds,
    run_echo_concat (hregistry.escape name hname)]

-- An echo with a raw filter is compiled to what it is without the raw ones where nothing is escaped.
theorem settledEcho_of_raw {autoEscape : Bool} (expr : String) (hraw : "raw" ∈ others)
    (hsame : others.filter (· != "raw") = chain.filter (· != "raw")) :
    settledEcho autoEscape expr others = settledEcho false expr (chain.filter (· != "raw")) := by
  have hnone : escapes autoEscape others = false := by simp [escapes, hraw]
  rw [settledEcho, settledEcho, hnone, hsame, List.filter_filter]
  simp [escapes]

-- Where the engine escapes, a chain without a raw filter that does not end by escaping does the same with
-- an escaping filter at its end. A chain with raw filters, however many and wherever they are put, does
-- the same as one without any where nothing is escaped. It is the same for all variables and whatever was
-- written before, and a chain of registered filters always compiles.
theorem echoed_chains (rules : Rules) (source : List Char) (expr : String) (chain : List String)
    (hregistry : Escapes rules.registry)
    (hknown : ∀ name ∈ chain, rules.registry.contains name = true) :
    ("raw" ∉ chain → (∀ last ∈ chain.getLast?, isEscape last = false) →
      ∃ what, echoed rules true source expr chain = .ok what ∧
        echoed rules true source expr (chain ++ ["e"]) = .ok what ∧
        echoed rules true source expr (chain ++ ["escape"]) = .ok what) ∧
    ∀ others, "raw" ∈ others → others.filter (· != "raw") = chain.filter (· != "raw") →
      ∃ what, echoed rules false source expr (chain.filter (· != "raw")) = .ok what ∧
        ∀ autoEscape, echoed rules autoEscape source expr others = .ok what := by
  constructor
  · intro hraw hlast
    have hconcat : ∀ name, isEscape name = true →
        echoed rules true source expr (chain ++ [name]) = .ok (run rules (settledEcho true expr chain)) := by
      intro name hname
      rw [echoed_eq, run_settledEcho_concat hregistry hname hraw hlast]
      rw [List.forall_mem_append]
      refine ⟨hknown, fun other hother => ?_⟩
      rw [List.mem_singleton.mp hother, Registry.contains, hregistry.escape name hname]
      rfl
    exact ⟨_, echoed_eq hknown, hconcat "e" rfl, hconcat "escape" rfl⟩
  · intro others hraw hsame
    have hkept : ∀ name ∈ chain.filter (· != "raw"), rules.registry.contains name = true :=
      fun name hname => hknown name (List.mem_of_mem_filter hname)
    refine ⟨_, echoed_eq hkept, fun autoEscape => ?_⟩
    rw [echoed_eq, settledEcho_of_raw expr hraw hsame]
    intro name hname
    by_cases hrawname : name = "raw"
    · rw [hrawname, Registry.contains, hregistry.raw]
      rfl
    · refine hkept name ?_
      rw [← hsame, List.mem_filter]
      exact ⟨hname, bne_iff_ne.mpr hrawname⟩

private def loudFilters : List (String × (Value → Except String Value)) :=
  [("loud", Filter.onText (· ++ ['!']))]

private def loudRules : Rules := ⟨Registry.standard.addAll loudFilters, false⟩

theorem echoed_chains_loud :
    (∃ what, echoed loudRules true [] "x" ["e", "loud"] = .ok what ∧
      echoed loudRules true [] "x" ["e", "loud", "e"] = .ok what ∧
      echoed loudRules true [] "x" ["e", "loud", "escape"] = .ok what) ∧
    ∃ what, echoed loudRules false [] "x" ["e", "loud"] = .ok what ∧
      ∀ autoEscape, echoed loudRules autoEscape [] "x" ["raw", "e", "loud", "raw"] = .ok what := by
  have hregistry : Escapes loudRules.registry := escapes_addAll (by decide)
  have hchains := echoed_chains loudRules [] "x" ["e", "loud"] hregistry (by decide)
  exact ⟨hchains.1 (by decide) (by decide), hchains.2 ["raw", "e", "loud", "raw"] (by decide) (by decide)⟩

end TemplateEngine.Render
