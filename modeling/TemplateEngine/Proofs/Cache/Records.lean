import TemplateEngine.Cache.Record
import TemplateEngine.Proofs.Json.RoundTrip

-- What a cache writes about its programs is read back.
namespace TemplateEngine

open Json Document

theorem mapM_eq_map {α β : Type} {f : α → Option β} {g : α → β} {all : List α}
    (hfg : ∀ a ∈ all, f a = some (g a)) : all.mapM f = some (all.map g) := by
  induction all with
  | nil => rfl
  | cons a all ih =>
    obtain ⟨ha, hall⟩ := List.forall_mem_cons.mp hfg
    simp [List.mapM_cons, ha, ih hall]

theorem mapM_map_some {α β : Type} {f : β → Option α} {g : α → β} {all : List α}
    (hfg : ∀ a ∈ all, f (g a) = some a) : (all.map g).mapM f = some all := by
  rw [List.mapM_map]
  exact (mapM_eq_map (g := id) hfg).trans (by rw [List.map_id])

section Fields

variable {members : List (String × Document)} {name : String}

theorem filter_absent (hname : ∀ m ∈ members, m.1 ≠ name) :
    (members.map fun (other, d) => (some other, d)).filter (fun (other, _) => other == some name) = [] := by
  rw [List.filter_eq_nil_iff, List.forall_mem_map]
  intro m hm
  simpa using hname m hm

theorem filter_others (hname : ∀ m ∈ members, m.1 ≠ name) :
    (members.map fun (other, d) => (some other, d)).filter (fun (other, _) => other != some name) =
      members.map fun (other, d) => (some other, d) := by
  rw [List.filter_eq_self, List.forall_mem_map]
  intro m hm
  simpa using hname m hm

theorem filter_present (hnames : (members.map Prod.fst).Nodup) {m : String × Document} (hm : m ∈ members) :
    (members.map fun (other, d) => (some other, d)).filter (fun (other, _) => other == some m.1) =
      [(some m.1, m.2)] := by
  induction members with
  | nil => cases hm
  | cons first members ih =>
    obtain ⟨hfirst, hnames⟩ := List.nodup_cons.mp hnames
    have hne : ∀ n ∈ members, n.1 ≠ first.1 :=
      fun n hn hsame => hfirst (hsame ▸ List.mem_map_of_mem hn)
    rcases List.mem_cons.mp hm with rfl | hm
    · simp [filter_absent hne]
    · simp [(hne m hm).symm, ih hnames hm]

-- A record has the fields that it was written with.
theorem fields?_record {names : List String} (hmembers : members.map Prod.fst = names)
    (hnames : names.Nodup) (optional : Nat) :
    (record members).fields? names optional = some (members.map fun m => some m.2) := by
  subst hmembers
  rw [record, fields?, if_pos (by simp), List.mapM_map]
  refine mapM_eq_map fun m hm => ?_
  simp only [Function.comp_apply, fieldOf, filter_present hnames hm]

end Fields

theorem textualItems_map {α : Type} {g : α → Document} (hg : ∀ a, (g a).Textual) (all : List α) :
    TextualItems (all.map g) := by
  induction all with
  | nil => simp [TextualItems]
  | cons a all ih => exact ⟨hg a, ih⟩

theorem string?_text (s : String) : (Document.text s).string? = some s := rfl

theorem natural?_natural (n : Nat) : (Document.natural n).natural? = some n := by
  simp [natural, natural?]

theorem textual_text (s : String) : (Document.text s).Textual := by simp [Document.text, Textual]

theorem texts?_texts (all : List String) : (Document.texts all).texts? = some all := by
  simp only [texts, texts?, array?, Option.bind_some]
  exact mapM_map_some (f := string?) (g := Document.text) fun _ _ => rfl

theorem textual_texts (all : List String) : (Document.texts all).Textual :=
  textualItems_map textual_text all

namespace Compile.Resolution

theorem textual_encode (r : Resolution) : r.encode.Textual := by
  cases ho : r.origin <;>
    simp [encode, record, Textual, TextualMembers, ho, Document.text]

theorem decode?_encode (r : Resolution) : decode? r.encode = some r := by
  obtain ⟨name, origin, resolved⟩ := r
  cases origin <;>
    simp [encode, decode?, record, fields?, fieldOf, Document.text, string?]

end Compile.Resolution

namespace Cache

theorem paths?_encodePaths (all : List Path) : paths? (encodePaths all) = some all := by
  have hpath : (fun s => (⟨s⟩ : Path)) ∘ Path.text = id := rfl
  simp [paths?, encodePaths, texts?_texts, hpath]

namespace Index

theorem textual_encode (i : Index) : i.encode.Textual := by
  have hresolutions := textualItems_map Compile.Resolution.textual_encode i.resolutions
  have hdependencies := textual_texts (i.dependencies.map Path.text)
  simp_all [encode, record, Textual, TextualMembers, Document.text, encodePaths]

theorem decode?_encode (i : Index) : decode? i.encode = some i := by
  obtain ⟨source, dependencies, resolutions⟩ := i
  simp [encode, decode?, record, fields?, fieldOf, Document.text, string?, paths?_encodePaths, array?,
    mapM_map_some fun r _ => Compile.Resolution.decode?_encode r]

theorem ofText?_text (i : Index) : ofText? i.text = some i := by
  rw [ofText?, text, read?_toText i.textual_encode, Option.bind_some, decode?_encode]

end Index

namespace Metadata

theorem textual_encode (m : Metadata) : m.encode.Textual := by
  have hdependencies := textual_texts (m.dependencies.map Path.text)
  simp_all [encode, record, Textual, TextualMembers, Document.text, encodePaths]

theorem decode?_encode (m : Metadata) :
    decode? m.encode =
      (Instant.ofStamp? m.compiledAt.stamp).map fun t => ⟨m.source, m.dependencies, t⟩ := by
  cases hs : Instant.ofStamp? m.compiledAt.stamp <;>
    simp [encode, decode?, record, fields?, fieldOf, Document.text, string?, paths?_encodePaths, hs]

-- The source and the dependencies are read back, whatever becomes of the stamp.
theorem ofText?_text {m m' : Metadata} (h : ofText? m.text = some m') :
    m'.source = m.source ∧ m'.dependencies = m.dependencies := by
  rw [ofText?, text, read?_toIndentedText m.textual_encode, Option.bind_some, decode?_encode] at h
  obtain ⟨t, -, rfl⟩ := Option.map_eq_some_iff.mp h
  exact ⟨rfl, rfl⟩

end Metadata

end Cache

end TemplateEngine
