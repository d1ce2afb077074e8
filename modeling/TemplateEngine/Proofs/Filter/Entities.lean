import TemplateEngine.Proofs.Render.Escaping
import TemplateEngine.Text.Search

-- Reading escaped text: the entities in it are replaced, from the front to the end, by the characters
-- they stand for. Escaping is undone by that, and every text that is safe to show is some text escaped.
namespace TemplateEngine.Html

-- What may stand behind an ampersand, and the character that both make up.
def references : List (List Char × Char) :=
  [("amp;".toList, '&'), ("lt;".toList, '<'), ("gt;".toList, '>'), ("quot;".toList, '"'),
    ("#039;".toList, '\'')]

theorem entities_eq : entities = references.map fun pair => '&' :: pair.1 := rfl

-- The reference at the front of a text: its character, and the text behind it.
def reference? (cs : List Char) : Option (Char × NotLonger cs) :=
  references.findSome? fun (name, c) => (Text.exactly name cs).map fun rest => (c, rest)

-- What a text stands for, read from the front to the end: each entity is its character, and an ampersand
-- without a reference stands for itself.
def unescape (cs : List Char) : List Char :=
  match cs with
  | [] => []
  | c :: rest =>
    if c = '&' then
      match reference? rest with
      | some (d, after) =>
        have := after.property
        d :: unescape after.val
      | none => '&' :: unescape rest
    else c :: unescape rest
termination_by cs.length
decreasing_by all_goals simp only [List.length_cons]; omega

theorem reference?_eq_some {cs : List Char} {c : Char} {after : NotLonger cs}
    (h : reference? cs = some (c, after)) : ∃ name, (name, c) ∈ references ∧ cs = name ++ after.val := by
  obtain ⟨⟨name, d⟩, hlisted, hread⟩ := List.exists_of_findSome?_eq_some h
  obtain ⟨rest, hrest, he⟩ := Option.map_eq_some_iff.mp hread
  cases he
  exact ⟨name, hlisted, Text.exactly_eq_some hrest⟩

-- No reference is the beginning of another one.
theorem reference?_append {name : List Char} {c : Char} (h : (name, c) ∈ references) (cs : List Char) :
    ∃ after, reference? (name ++ cs) = some (c, after) ∧ after.val = cs := by
  simp only [references, List.mem_cons, Prod.mk.injEq, List.not_mem_nil, or_false] at h
  rcases h with ⟨rfl, rfl⟩ | ⟨rfl, rfl⟩ | ⟨rfl, rfl⟩ | ⟨rfl, rfl⟩ | ⟨rfl, rfl⟩ <;>
    exact ⟨_, rfl, rfl⟩

theorem unescape_reference {name : List Char} {c : Char} (h : (name, c) ∈ references) (cs : List Char) :
    unescape ('&' :: (name ++ cs)) = c :: unescape cs := by
  obtain ⟨after, hafter, hval⟩ := reference?_append h cs
  rw [unescape, if_pos rfl, hafter]
  exact congrArg (fun rest => c :: unescape rest) hval

theorem unescape_cons {c : Char} (hc : c ≠ '&') (rest : List Char) :
    unescape (c :: rest) = c :: unescape rest := by
  rw [unescape, if_neg hc]

theorem escapeChar_of_reference : ∀ pair ∈ references, escapeChar pair.2 = '&' :: pair.1 := by decide

theorem escapeChar_of_plain {c : Char} (hamp : c ≠ '&') (hmarks : c ∉ ['<', '>', '"', '\'']) :
    escapeChar c = [c] := by
  simp only [List.mem_cons, List.not_mem_nil, or_false, not_or] at hmarks
  simp [escapeChar, hamp, hmarks]

theorem escapeChar_cases (c : Char) :
    (∃ name, (name, c) ∈ references) ∨ c ≠ '&' ∧ escapeChar c = [c] := by
  by_cases hc : c ∈ references.map Prod.snd
  · obtain ⟨⟨name, c⟩, hlisted, rfl⟩ := List.mem_map.mp hc
    exact .inl ⟨name, hlisted⟩
  · obtain ⟨hamp, hmarks⟩ := List.ne_and_not_mem_of_not_mem_cons hc
    exact .inr ⟨hamp, escapeChar_of_plain hamp hmarks⟩

theorem escape_cons (c : Char) (cs : List Char) : escape (c :: cs) = escapeChar c ++ escape cs :=
  List.flatMap_cons

-- Every character is read back before what follows it, so the texts between the characters need no
-- boundaries of their own.
theorem unescape_escape (cs : List Char) : unescape (escape cs) = cs := by
  induction cs with
  | nil => rw [escape, List.flatMap_nil, unescape]
  | cons c cs ih =>
    rw [escape_cons]
    rcases escapeChar_cases c with ⟨name, hname⟩ | ⟨hc, hplain⟩
    · rw [escapeChar_of_reference _ hname, List.cons_append, unescape_reference hname, ih]
    · rw [hplain, List.singleton_append, unescape_cons hc, ih]

theorem Inert.of_suffix {cs ds : List Char} (h : Inert ds) (hsuffix : cs <:+ ds) : Inert cs where
  marks c hc := h.marks c (hsuffix.subset hc)
  ampersands rest hrest := h.ampersands rest (hrest.trans hsuffix)

-- An ampersand in inert text has a reference behind it.
theorem Inert.reference?_ne_none {cs : List Char} (h : Inert ('&' :: cs)) : reference? cs ≠ none := by
  obtain ⟨entity, hentity, hstarts⟩ := h.ampersands cs (List.suffix_refl _)
  rw [entities_eq] at hentity
  obtain ⟨⟨name, c⟩, hlisted, rfl⟩ := List.mem_map.mp hentity
  obtain ⟨rest, rfl⟩ := (List.cons_prefix_cons.mp hstarts).2
  obtain ⟨after, hafter, -⟩ := reference?_append hlisted rest
  rw [hafter]
  exact Option.some_ne_none _

-- Inert text is the escaped form of what it is read as.
theorem Inert.escape_unescape {cs : List Char} (h : Inert cs) : escape (unescape cs) = cs := by
  fun_induction unescape cs with
  | case1 => rfl
  | case2 rest c after hread _ ih =>
    obtain ⟨name, hname, hrest⟩ := reference?_eq_some hread
    have hsplit : '&' :: rest = ('&' :: name) ++ after.val := congrArg ('&' :: ·) hrest
    have hafter := ih (h.of_suffix ⟨'&' :: name, hsplit.symm⟩)
    rw [escape_cons, escapeChar_of_reference _ hname, hafter, hsplit]
  | case3 rest hread ih => exact absurd hread h.reference?_ne_none
  | case4 c rest hc ih =>
    have hplain := escapeChar_of_plain hc (h.marks c (List.mem_cons_self ..))
    rw [escape_cons, hplain, ih (h.of_suffix (List.suffix_cons ..)), List.singleton_append]

theorem inert_iff_exists_escape {cs : List Char} : Inert cs ↔ ∃ ds, escape ds = cs := by
  refine ⟨fun h => ⟨unescape cs, h.escape_unescape⟩, ?_⟩
  rintro ⟨ds, rfl⟩
  exact inert_escape ds

-- Escaped text is read back as the text it comes from, whatever entities or parts of them stood in that.
-- So no two texts look the same when they are shown, and what is escaped piece by piece is escaped as a
-- whole; and nothing is left in it that begins or ends a tag or an attribute.
theorem escape_reversible :
    (∀ cs, unescape (escape cs) = cs) ∧ Function.Injective escape ∧
      (∀ cs ds, escape (cs ++ ds) = escape cs ++ escape ds) ∧
      ∀ cs, '<' ∉ escape cs ∧ '>' ∉ escape cs ∧ '"' ∉ escape cs ∧ '\'' ∉ escape cs := by
  have hinjective : Function.Injective escape := Function.LeftInverse.injective unescape_escape
  refine ⟨unescape_escape, hinjective, fun cs ds => List.flatMap_append, fun cs => ?_⟩
  have hmarks : ∀ mark ∈ ['<', '>', '"', '\''], mark ∉ escape cs :=
    fun mark hmark hmem => (inert_escape cs).marks mark hmem hmark
  simpa using hmarks

-- An entity that was in the text is still there when it is read back.
example : unescape (escape "&amp;lt; &l".toList) = "&amp;lt; &l".toList := by cbv

end TemplateEngine.Html
