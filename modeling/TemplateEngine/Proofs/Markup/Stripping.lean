import TemplateEngine.Markup.Script
import TemplateEngine.Proofs.Text.Cuts

-- The removal of script spans: what it keeps of a template and what it takes out, and where an opener
-- is left over. Taking out a span joins the text before it to the text behind it.
namespace TemplateEngine.Markup

-- A part of a template before the scripts are gone: a character that stays, a script span with its
-- closer, or one that reaches to the end.
inductive Stretch where
  | kept (c : Char)
  | script (mark : Char) (body : List Char)
  | unclosed (mark : Char) (body : List Char)

namespace Stretch

def written : Stretch → List Char
  | kept c => [c]
  | script mark body => '<' :: mark :: (body ++ [mark, '>'])
  | unclosed mark body => '<' :: mark :: body

def shown : Stretch → List Char
  | kept c => [c]
  | script _ _ | unclosed _ _ => []

def removed : Stretch → List Char
  | kept _ => []
  | script mark body => (script mark body).written
  | unclosed mark body => (unclosed mark body).written

def IsScript : Stretch → Prop
  | script _ _ => True
  | kept _ | unclosed _ _ => False

end Stretch

-- The text that some stretches stand for, what is left of it, and what is not.
def writtenOf (parts : List Stretch) : List Char := parts.flatMap Stretch.written

def shownOf (parts : List Stretch) : List Char := parts.flatMap Stretch.shown

def removedOf (parts : List Stretch) : List Char := parts.flatMap Stretch.removed

section

variable (part : Stretch) (parts others : List Stretch)

@[simp] theorem writtenOf_nil : writtenOf [] = [] := rfl

@[simp] theorem writtenOf_cons : writtenOf (part :: parts) = part.written ++ writtenOf parts := rfl

@[simp] theorem writtenOf_append : writtenOf (parts ++ others) = writtenOf parts ++ writtenOf others :=
  List.flatMap_append

@[simp] theorem shownOf_nil : shownOf [] = [] := rfl

@[simp] theorem shownOf_cons : shownOf (part :: parts) = part.shown ++ shownOf parts := rfl

@[simp] theorem shownOf_append : shownOf (parts ++ others) = shownOf parts ++ shownOf others :=
  List.flatMap_append

end

theorem newlines_writtenOf (parts : List Stretch) :
    Text.newlines (writtenOf parts) = Text.newlines (shownOf parts) + Text.newlines (removedOf parts) := by
  induction parts with
  | nil => rfl
  | cons part parts ih =>
    have hremoved : removedOf (part :: parts) = part.removed ++ removedOf parts := rfl
    have hpart : Text.newlines part.written = Text.newlines part.shown + Text.newlines part.removed := by
      cases part with
      | kept c => rfl
      | script mark body | unclosed mark body => exact (Nat.zero_add _).symm
    rw [writtenOf_cons, shownOf_cons, hremoved, Text.newlines_append, Text.newlines_append,
      Text.newlines_append, hpart, ih]
    omega

def IsScriptMark (c : Char) : Prop := c = '?' ∨ c = '%'

theorem scriptMark?_eq_some_iff {c mark : Char} :
    scriptMark? c = some mark ↔ c = mark ∧ IsScriptMark mark := by
  unfold scriptMark? IsScriptMark
  split <;> grind

-- How a template is taken apart, from its front on. A span ends at the first closer with its own mark;
-- what does not open a span stays.
inductive Strips : List Char → List Stretch → Prop
  | nil : Strips [] []
  | kept {c : Char} {cs : List Char} {parts : List Stretch}
      (hkept : ∀ mark, IsScriptMark mark → ¬['<', mark] <+: c :: cs) (hparts : Strips cs parts) :
      Strips (c :: cs) (.kept c :: parts)
  | script {mark : Char} {body cs : List Char} {parts : List Stretch} (hmark : IsScriptMark mark)
      (hbody : ¬[mark, '>'] <:+: body ++ [mark]) (hparts : Strips cs parts) :
      Strips ((Stretch.script mark body).written ++ cs) (.script mark body :: parts)
  | unclosed {mark : Char} {body : List Char} (hmark : IsScriptMark mark)
      (hbody : ¬[mark, '>'] <:+: body) :
      Strips (Stretch.unclosed mark body).written [.unclosed mark body]

theorem scriptOpener?_eq_some {cs : List Char} {mark : Char} {rest : Shorter cs}
    (h : scriptOpener? cs = some (mark, rest)) : IsScriptMark mark ∧ cs = '<' :: mark :: rest.val := by
  unfold scriptOpener? at h
  split at h
  · obtain ⟨m, hm, he⟩ := Option.map_eq_some_iff.mp h
    cases he
    obtain ⟨rfl, hmark⟩ := scriptMark?_eq_some_iff.mp hm
    exact ⟨hmark, rfl⟩
  · cases h

theorem scriptOpener?_eq_none {cs : List Char} (h : scriptOpener? cs = none) {mark : Char}
    (hmark : IsScriptMark mark) : ¬['<', mark] <+: cs := by
  rintro ⟨rest, rfl⟩
  simp [scriptOpener?, scriptMark?_eq_some_iff.mpr ⟨rfl, hmark⟩] at h

theorem afterScript_eq_some {mark : Char} {cs : List Char} {after : NotLonger cs}
    (h : afterScript mark cs = some after) :
    ∃ body, ¬[mark, '>'] <:+: body ++ [mark] ∧ cs = body ++ [mark, '>'] ++ after.val := by
  obtain ⟨⟨body, rest⟩, hcut, rfl⟩ := Option.map_eq_some_iff.mp h
  exact ⟨body, Text.cutWith_exactly_first hcut (by simp), Text.cutWith_exactly hcut⟩

theorem exists_strips (cs : List Char) : ∃ parts, Strips cs parts ∧ shownOf parts = stripScripts cs := by
  fun_induction stripScripts cs with
  | case1 cs mark rest hopener after hafter ih =>
    obtain ⟨parts, hparts, hshown⟩ := ih
    obtain ⟨hmark, hcs⟩ := scriptOpener?_eq_some hopener
    obtain ⟨body, hbody, hrest⟩ := afterScript_eq_some hafter
    refine ⟨.script mark body :: parts, ?_, hshown⟩
    rw [hcs, hrest]
    simpa [Stretch.written] using Strips.script hmark hbody hparts
  | case2 cs mark rest hopener hafter =>
    obtain ⟨hmark, hcs⟩ := scriptOpener?_eq_some hopener
    have hbody := Text.cutWith_exactly_eq_none_iff.mp (Option.map_eq_none_iff.mp hafter)
    have hparts := Strips.unclosed hmark hbody
    rw [Stretch.written, ← hcs] at hparts
    exact ⟨_, hparts, rfl⟩
  | case3 => exact ⟨[], .nil, rfl⟩
  | case4 c cs hopener ih =>
    obtain ⟨parts, hparts, hshown⟩ := ih
    exact ⟨.kept c :: parts, .kept (fun mark hmark => scriptOpener?_eq_none hopener hmark) hparts,
      congrArg (c :: ·) hshown⟩

theorem Strips.written {cs : List Char} {parts : List Stretch} (h : Strips cs parts) :
    writtenOf parts = cs := by
  induction h with
  | nil => rfl
  | kept _ _ ih => exact congrArg (_ :: ·) ih
  | script _ _ _ ih => exact congrArg (_ ++ ·) ih
  | unclosed => simp

theorem Strips.tail {cs : List Char} {part : Stretch} {parts : List Stretch}
    (h : Strips cs (part :: parts)) : Strips (writtenOf parts) parts := by
  cases h with
  | kept _ hparts | script _ _ hparts => rwa [hparts.written]
  | unclosed => exact .nil

theorem Strips.drop {cs : List Char} {before after : List Stretch} (h : Strips cs (before ++ after)) :
    Strips (writtenOf after) after := by
  induction before generalizing cs with
  | nil =>
    rw [List.nil_append] at h
    rwa [h.written]
  | cons part before ih => exact ih h.tail

theorem Strips.kept_apart {cs : List Char} {c mark : Char} {parts : List Stretch}
    (h : Strips cs (.kept c :: parts)) (hmark : IsScriptMark mark) :
    ¬['<', mark] <+: c :: writtenOf parts := by
  cases h with
  | kept hkept hparts =>
    rw [hparts.written]
    exact hkept mark hmark

theorem Strips.unclosed_last {cs body : List Char} {mark : Char} {parts : List Stretch}
    (h : Strips cs (.unclosed mark body :: parts)) : parts = [] := by
  cases h
  rfl

theorem hasScript_iff {cs : List Char} :
    hasScript cs = true ↔ ∃ mark, IsScriptMark mark ∧ ['<', mark] <:+: cs := by
  simp [hasScript, Text.occurs_iff, IsScriptMark]

-- A character that is left was kept.
theorem exists_kept {parts : List Stretch} {front back : List Char} {c : Char}
    (h : shownOf parts = front ++ c :: back) :
    ∃ before after, parts = before ++ .kept c :: after ∧ shownOf before = front ∧ shownOf after = back := by
  induction parts generalizing front with
  | nil => simp at h
  | cons part parts ih =>
    cases part with
    | kept d =>
      cases front with
      | nil =>
        obtain ⟨rfl, hback⟩ := List.cons.inj h
        exact ⟨[], parts, rfl, rfl, hback⟩
      | cons e front =>
        obtain ⟨rfl, hrest⟩ := List.cons.inj h
        obtain ⟨before, after, rfl, rfl, hafter⟩ := ih hrest
        exact ⟨.kept d :: before, after, rfl, rfl, hafter⟩
    | script mark body | unclosed mark body =>
      obtain ⟨before, after, rfl, hbefore, hafter⟩ := ih h
      exact ⟨_ :: before, after, rfl, hbefore, hafter⟩

-- Without an opener nothing is taken out.
theorem Strips.shown_of_free {cs : List Char} {parts : List Stretch} (h : Strips cs parts)
    (hfree : hasScript cs = false) : shownOf parts = cs := by
  induction h with
  | nil => rfl
  | @kept c cs parts hkept hparts ih =>
    refine congrArg (c :: ·) (ih ?_)
    rw [← Bool.not_eq_true, hasScript_iff] at hfree ⊢
    rintro ⟨mark, hmark, hwithin⟩
    exact hfree ⟨mark, hmark, hwithin.trans (List.suffix_cons c cs).isInfix⟩
  | script hmark | unclosed hmark =>
    rw [← Bool.not_eq_true, hasScript_iff] at hfree
    exact absurd ⟨_, hmark, ⟨[], _, rfl⟩⟩ hfree

-- An opener is left where spans stood between a `<` and a mark, and nowhere else.
theorem Strips.hasScript_shown_iff {cs : List Char} {parts : List Stretch} (h : Strips cs parts) :
    hasScript (shownOf parts) = true ↔
      ∃ before scripts after mark, IsScriptMark mark ∧
        parts = before ++ .kept '<' :: (scripts ++ .kept mark :: after) ∧
        scripts ≠ [] ∧ ∀ s ∈ scripts, s.IsScript := by
  rw [hasScript_iff]
  constructor
  · rintro ⟨mark, hmark, front, back, hsplit⟩
    obtain ⟨before, behind, rfl, -, hbehind⟩ := exists_kept (c := '<') (by simpa using hsplit.symm)
    rw [← List.nil_append (mark :: _)] at hbehind
    obtain ⟨scripts, after, rfl, hscripts, -⟩ := exists_kept hbehind
    refine ⟨before, scripts, after, mark, hmark, rfl, ?_, fun s hs => ?_⟩
    · rintro rfl
      exact h.drop.kept_apart hmark ⟨writtenOf after, rfl⟩
    · obtain ⟨ahead, others, rfl⟩ := List.append_of_mem hs
      cases s with
      | script => trivial
      | kept c => simp [Stretch.shown] at hscripts
      | unclosed m body =>
        have hlast := h.drop.tail
        rw [List.append_assoc] at hlast
        have hrest := hlast.drop.unclosed_last
        simp at hrest
  · rintro ⟨before, scripts, after, mark, hmark, rfl, -, hscripts⟩
    have hnone : shownOf scripts = [] := by
      refine List.flatMap_eq_nil_iff.mpr fun s hs => ?_
      cases s with
      | script => rfl
      | kept | unclosed => exact (hscripts _ hs).elim
    exact ⟨mark, hmark, shownOf before, shownOf after, by simp [hnone, Stretch.shown]⟩

theorem length_shownOf_le (parts : List Stretch) : (shownOf parts).length ≤ (writtenOf parts).length := by
  induction parts with
  | nil => exact Nat.le_refl _
  | cons part parts ih => cases part <;> simp [Stretch.shown, Stretch.written] <;> omega

-- Taking a span out leaves a shorter text.
theorem length_shownOf_lt {parts : List Stretch} {s : Stretch} (hs : s ∈ parts) (hscript : s.IsScript) :
    (shownOf parts).length < (writtenOf parts).length := by
  obtain ⟨before, after, rfl⟩ := List.append_of_mem hs
  have hbefore := length_shownOf_le before
  have hafter := length_shownOf_le after
  cases s with
  | script mark body =>
    simp only [shownOf_append, shownOf_cons, writtenOf_append, writtenOf_cons, List.length_append,
      Stretch.shown, Stretch.written, List.length_nil, List.length_cons]
    omega
  | kept | unclosed => exact hscript.elim

theorem stripScripts_eq_self_iff {cs : List Char} : stripScripts cs = cs ↔ hasScript cs = false := by
  obtain ⟨parts, hparts, hshown⟩ := exists_strips cs
  constructor
  · intro hself
    rw [← Bool.not_eq_true]
    intro hscript
    rw [← hself, ← hshown, hparts.hasScript_shown_iff] at hscript
    obtain ⟨before, scripts, after, mark, -, rfl, hne, hscripts⟩ := hscript
    obtain ⟨s, others, rfl⟩ := List.exists_cons_of_ne_nil hne
    have hmem : s ∈ before ++ .kept '<' :: (s :: others ++ .kept mark :: after) := by simp
    have hlength := length_shownOf_lt hmem (hscripts s (by simp))
    rw [hshown, hself, hparts.written] at hlength
    exact Nat.lt_irrefl _ hlength
  · intro hfree
    rw [← hshown]
    exact hparts.shown_of_free hfree

-- What is left when scripts are removed: the characters that are kept. An opener is left exactly where
-- one or more spans stood between a `<` and a mark, and a second removal changes nothing exactly if
-- there is none.
theorem stripScripts_leaves (cs : List Char) :
    ∃ parts, Strips cs parts ∧ stripScripts cs = shownOf parts ∧
      (hasScript (stripScripts cs) = true ↔
        ∃ before scripts after mark, IsScriptMark mark ∧
          parts = before ++ .kept '<' :: (scripts ++ .kept mark :: after) ∧
          scripts ≠ [] ∧ ∀ s ∈ scripts, s.IsScript) ∧
      (stripScripts (stripScripts cs) = stripScripts cs ↔ hasScript (stripScripts cs) = false) := by
  obtain ⟨parts, hparts, hshown⟩ := exists_strips cs
  refine ⟨parts, hparts, hshown.symm, ?_, stripScripts_eq_self_iff⟩
  rw [← hshown]
  exact hparts.hasScript_shown_iff

example : stripScripts "<<?x?>?y?>".toList = "<?y?>".toList := by with_unfolding_all rfl

end TemplateEngine.Markup
