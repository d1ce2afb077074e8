import TemplateEngine.Filter.Builtin
import Mathlib.Data.List.Infix

-- The removal of tags: what it takes out of a text and what it keeps. A tag reaches from an opening
-- angle bracket to the next closing one, so nothing that is kept can make up another tag.
namespace TemplateEngine

namespace Html

open scoped List

-- An opening bracket with a closing one somewhere behind it.
def HasTag (cs : List Char) : Prop := ['<', '>'] <+ cs

instance (cs : List Char) : Decidable (HasTag cs) := inferInstanceAs (Decidable (['<', '>'] <+ cs))

theorem hasTag_cons_open_iff {cs : List Char} : HasTag ('<' :: cs) ↔ '>' ∈ cs := by
  unfold HasTag
  rw [List.cons_sublist_cons, List.singleton_sublist]

theorem hasTag_append_iff {front cs : List Char} (hfront : '<' ∉ front) : HasTag (front ++ cs) ↔ HasTag cs := by
  induction front with
  | nil => rfl
  | cons c front ih =>
    obtain ⟨hc, hrest⟩ := List.ne_and_not_mem_of_not_mem_cons hfront
    rw [← ih hrest]
    exact ⟨fun h => h.of_cons_of_ne hc, fun h => h.cons c⟩

-- Text without an opening bracket, and the tag behind it without its brackets.
structure Tagged where
  front : List Char
  body : List Char
  front_free : '<' ∉ front
  body_free : '>' ∉ body

namespace Tagged

def written (part : Tagged) : List Char := part.front ++ '<' :: (part.body ++ ['>'])

-- The text in front of a tag may begin further to the front.
def cons (c : Char) (part : Tagged) (hc : c ≠ '<') : Tagged :=
  ⟨c :: part.front, part.body, List.not_mem_cons_of_ne_of_not_mem hc.symm part.front_free, part.body_free⟩

end Tagged

-- What some tags with the text in front of them stand for, and what is left of them.
def writtenTags (parts : List Tagged) : List Char := parts.flatMap Tagged.written

def keptText (parts : List Tagged) : List Char := parts.flatMap Tagged.front

theorem open_notMem_keptText (parts : List Tagged) : '<' ∉ keptText parts := by
  intro h
  obtain ⟨part, -, hpart⟩ := List.mem_flatMap.mp h
  exact part.front_free hpart

theorem hasTag_writtenTags {parts : List Tagged} (hparts : parts ≠ []) (rest : List Char) :
    HasTag (writtenTags parts ++ rest) := by
  obtain ⟨part, others, rfl⟩ := List.exists_cons_of_ne_nil hparts
  have hsplit : writtenTags (part :: others) ++ rest =
      part.front ++ '<' :: (part.body ++ '>' :: (writtenTags others ++ rest)) := by
    simp [writtenTags, Tagged.written]
  rw [hsplit, hasTag_append_iff part.front_free, hasTag_cons_open_iff]
  simp

theorem afterTag_eq_some {cs : List Char} {after : Shorter cs} (h : afterTag cs = some after) :
    ∃ body, '>' ∉ body ∧ cs = body ++ '>' :: after.val := by
  induction cs with
  | nil => cases h
  | cons c cs ih =>
    unfold afterTag at h
    split at h
    · next hc =>
      cases h
      exact ⟨[], by simp, by rw [hc]; rfl⟩
    · next hc =>
      obtain ⟨inner, hinner, rfl⟩ := Option.map_eq_some_iff.mp h
      obtain ⟨body, hbody, hcs⟩ := ih hinner
      exact ⟨c :: body, List.not_mem_cons_of_ne_of_not_mem (Ne.symm hc) hbody, congrArg (c :: ·) hcs⟩

theorem afterTag_eq_none {cs : List Char} (h : afterTag cs = none) : '>' ∉ cs := by
  induction cs with
  | nil => simp
  | cons c cs ih =>
    unfold afterTag at h
    split at h
    · cases h
    · next hc => exact List.not_mem_cons_of_ne_of_not_mem (Ne.symm hc) (ih (Option.map_eq_none_iff.mp h))

-- A text is its tags with what stands in front of each, and a rest without a tag; the tags are what
-- goes.
theorem exists_tagged (cs : List Char) :
    ∃ parts rest, cs = writtenTags parts ++ rest ∧ stripTags cs = keptText parts ++ rest ∧ ¬HasTag rest := by
  fun_induction stripTags cs with
  | case1 => exact ⟨[], [], rfl, rfl, by decide⟩
  | case2 cs after hafter _ ih =>
    obtain ⟨parts, rest, hwritten, hkept, hrest⟩ := ih
    obtain ⟨body, hbody, hcs⟩ := afterTag_eq_some hafter
    refine ⟨⟨[], body, by simp, hbody⟩ :: parts, rest, ?_, hkept, hrest⟩
    rw [hcs, hwritten]
    simp [writtenTags, Tagged.written]
  | case3 cs hafter =>
    refine ⟨[], '<' :: cs, rfl, rfl, ?_⟩
    rw [hasTag_cons_open_iff]
    exact afterTag_eq_none hafter
  | case4 c cs hc ih =>
    obtain ⟨parts, rest, hwritten, hkept, hrest⟩ := ih
    cases parts with
    | nil =>
      refine ⟨[], c :: rest, congrArg (c :: ·) hwritten, congrArg (c :: ·) hkept, ?_⟩
      rw [← List.singleton_append, hasTag_append_iff (by simpa using Ne.symm hc)]
      exact hrest
    | cons part parts =>
      exact ⟨part.cons c hc :: parts, rest, congrArg (c :: ·) hwritten, congrArg (c :: ·) hkept, hrest⟩

theorem not_hasTag_stripTags (cs : List Char) : ¬HasTag (stripTags cs) := by
  obtain ⟨parts, rest, -, hkept, hrest⟩ := exists_tagged cs
  rw [hkept, hasTag_append_iff (open_notMem_keptText parts)]
  exact hrest

theorem stripTags_eq_self {cs : List Char} (h : ¬HasTag cs) : stripTags cs = cs := by
  obtain ⟨parts, rest, hwritten, hkept, -⟩ := exists_tagged cs
  cases parts with
  | nil => rw [hkept, hwritten]; rfl
  | cons part parts =>
    rw [hwritten] at h
    exact absurd (hasTag_writtenTags (by simp) rest) h

end Html

namespace Filter

open Html

-- The filter of that name removes the tags of a text, from each opening bracket that begins one to the
-- next closing bracket, and nothing else. What it leaves has no tag, and is left as it is the next time.
theorem striptags_leaves_no_tag :
    Registry.standard.get? "striptags" = some (.transform (onText stripTags)) ∧
      ∀ v, ∃ t, onText stripTags v = .ok (.string t) ∧ ¬HasTag t.toList ∧
        onText stripTags (.string t) = .ok (.string t) ∧
        ∃ parts rest, v.text.toList = writtenTags parts ++ rest ∧ t.toList = keptText parts ++ rest := by
  refine ⟨rfl, fun v => ⟨String.ofList (stripTags v.text.toList), rfl, ?_, ?_, ?_⟩⟩
  · rw [String.toList_ofList]
    exact not_hasTag_stripTags _
  · unfold onText
    rw [Value.text, String.toList_ofList, stripTags_eq_self (not_hasTag_stripTags _)]
  · obtain ⟨parts, rest, hwritten, hkept, -⟩ := exists_tagged v.text.toList
    exact ⟨parts, rest, hwritten, by rw [String.toList_ofList, hkept]⟩

-- Two brackets that come together were no tag before, and are none afterwards.
example : stripTags "a<b<c>>d".toList = "a>d".toList := by with_unfolding_all rfl

end Filter

end TemplateEngine
