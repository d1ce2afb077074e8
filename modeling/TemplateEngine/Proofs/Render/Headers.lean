import TemplateEngine.Proofs.Text.Blanks
import TemplateEngine.Proofs.Text.Cuts
import TemplateEngine.Render.LoopHeader

-- Loop headers as they are written: the iterable with the variables behind it or in front of it. A name
-- holds no space, so the word between the two sides is found where it stands, unless a name is that word.
namespace TemplateEngine.Render

-- The name of a loop variable, and whether it is written with its sigil.
structure Variable where
  name : String
  sigil : Bool
  isName : Text.isName name.toList = true

namespace Variable

def text (x : Variable) : String := if x.sigil then "$" ++ x.name else x.name

theorem toList_text (x : Variable) :
    x.text.toList = if x.sigil then '$' :: x.name.toList else x.name.toList := by
  unfold text
  split <;> simp

theorem continuesName_of_mem (x : Variable) {c : Char} (hc : c ∈ x.text.toList) :
    c = '$' ∨ Text.continuesName c = true := by
  have hname := Text.forall_mem_of_isName x.isName
  rw [toList_text] at hc
  split at hc
  · exact (List.mem_cons.mp hc).imp_right (hname c)
  · exact .inr (hname c hc)

theorem notMem_text (x : Variable) {c : Char} (hc : c ≠ '$') (hmark : Text.continuesName c = false) :
    c ∉ x.text.toList := by
  intro hmem
  rcases x.continuesName_of_mem hmem with h | h
  · exact hc h
  · rw [hmark] at h
    cases h

theorem not_blank_of_mem (x : Variable) {c : Char} (hc : c ∈ x.text.toList) : Text.isBlank c = false := by
  rcases x.continuesName_of_mem hc with rfl | h
  · rfl
  · exact Text.not_blank_of_label (by rw [h, Bool.true_or])

theorem space_notMem_text (x : Variable) : ' ' ∉ x.text.toList := x.notMem_text (by decide) (by decide)

theorem not_sigil_of_mem (x : Variable) {c : Char} (hc : c ∈ x.name.toList) : c ≠ '$' := by
  rintro rfl
  exact absurd (Text.forall_mem_of_isName x.isName _ hc) (by decide)

-- The blanks around a variable are not part of it.
theorem loopVariable_text (x : Variable) (header : String) {front back raw : List Char}
    (hfront : Text.Blank front) (hback : Text.Blank back) (hraw : raw = front ++ x.text.toList ++ back) :
    loopVariable header raw = .ok x.name := by
  have hshown : Text.trim raw = x.text.toList := by
    rw [hraw, Text.trim_pad hfront hback]
    exact Text.trim_of_not_blank fun c hc => x.not_blank_of_mem hc
  unfold loopVariable
  dsimp only
  rw [hshown, toList_text]
  cases x.sigil with
  | true => exact (if_pos x.isName).trans (congrArg Except.ok String.ofList_toList)
  | false =>
    rw [if_neg Bool.false_ne_true]
    split
    · next rest hrest => exact absurd rfl (x.not_sigil_of_mem (hrest ▸ List.mem_cons_self ..))
    · rw [if_pos x.isName, String.ofList_toList]

theorem toList_text_ne (x : Variable) {word : String} (hname : x.name ≠ word)
    (hword : '$' ∉ word.toList) : x.text.toList ≠ word.toList := by
  rw [toList_text]
  split
  · intro h
    exact hword (h ▸ List.mem_cons_self ..)
  · exact fun h => hname (String.toList_inj.mp h)

end Variable

-- The variables of a header, those of a pair with their separator between them.
def namesText : LoopKind → Option Variable → Variable → String
  | _, none, value => value.text
  | .foreach, some key, value => key.text ++ " => " ++ value.text
  | .forIn, some key, value => key.text ++ ", " ++ value.text

-- The header of a loop over an iterable with a variable for the values, and maybe one for the keys.
def headerText : LoopKind → String → Option Variable → Variable → String
  | .foreach, iterable, key, value => iterable ++ " as " ++ namesText .foreach key value
  | .forIn, iterable, key, value => namesText .forIn key value ++ " in " ++ iterable

section Sides

open Text

theorem not_as_behind {front : List Char} (hfront : ' ' ∉ front) (value : Variable) :
    ¬" as ".toList <:+: front ++ ' ' :: value.text.toList := by
  have hspace := value.space_notMem_text
  intro h
  rcases (infix_append_cons_iff hfront).mp h with hstarts | hwithin
  · exact hspace (hstarts.subset (by decide))
  · exact not_infix_of_notMem hspace hwithin

theorem not_in_before (value : Variable) : ¬" in ".toList <:+: value.text.toList ++ " in".toList := by
  intro h
  exact absurd ((infix_append_cons_iff value.space_notMem_text).mp h) (by decide)

-- The word is looked for from the end, where only the key has a space on either side.
theorem headerSides_foreach (iterable : String) (key : Option Variable) (value : Variable)
    (hkey : ∀ k ∈ key, k.text.toList ≠ "as".toList) :
    headerSides .foreach (headerText .foreach iterable key value).toList =
      some (iterable.toList, (namesText .foreach key value).toList) := by
  have hsplit : (headerText .foreach iterable key value).toList =
      iterable.toList ++ " as ".toList ++ (namesText .foreach key value).toList := by
    rw [headerText, String.toList_append, String.toList_append]
  rw [headerSides, hsplit]
  refine cutLast_of_last ?_ _
  cases key with
  | none => exact not_as_behind (by decide : ' ' ∉ "as".toList) value
  | some key =>
    have hnames : " as ".toList.tail ++ (namesText .foreach (some key) value).toList =
        "as".toList ++ ' ' :: (key.text.toList ++ ' ' :: ("=>".toList ++ ' ' :: value.text.toList)) := by
      simp [namesText]
    rw [hnames]
    intro h
    rcases (infix_append_cons_iff (by decide)).mp h with hstarts | hwithin
    · exact hkey key rfl (word_eq_of_starts (by decide) key.space_notMem_text hstarts).symm
    · rcases (infix_append_cons_iff key.space_notMem_text).mp hwithin with hstarts | hwithin
      · exact absurd (List.cons_prefix_cons.mp hstarts).1 (by decide)
      · exact not_as_behind (by decide) value hwithin

-- The word is looked for from the front, where only the value of a pair has a space on either side.
theorem headerSides_forIn (iterable : String) (key : Option Variable) (value : Variable)
    (hvalue : key.isSome → value.text.toList ≠ "in".toList) :
    headerSides .forIn (headerText .forIn iterable key value).toList =
      some (iterable.toList, (namesText .forIn key value).toList) := by
  have hsplit : (headerText .forIn iterable key value).toList =
      (namesText .forIn key value).toList ++ " in ".toList ++ iterable.toList := by
    rw [headerText, String.toList_append, String.toList_append]
  rw [headerSides, hsplit, cut_of_first (by decide)]
  · rfl
  cases key with
  | none => exact not_in_before value
  | some key =>
    have hnames : (namesText .forIn (some key) value).toList ++ " in ".toList.dropLast =
        key.text.toList ++ [','] ++ ' ' :: (value.text.toList ++ " in".toList) := by
      simp [namesText]
    rw [hnames]
    intro h
    have hfront : ' ' ∉ key.text.toList ++ [','] := by simp [key.space_notMem_text]
    rcases (infix_append_cons_iff hfront).mp h with hstarts | hwithin
    · exact hvalue rfl (word_eq_of_starts (by decide) value.space_notMem_text hstarts).symm
    · exact not_in_before value hwithin

end Sides

section Names

open Text

theorem cut_bare (kind : LoopKind) (value : Variable) :
    cut (variableSeparator kind) value.text.toList = none := by
  rw [cut_eq_none_iff]
  cases kind with
  | foreach => exact not_infix_of_notMem (value.notMem_text (by decide) (by decide))
  | forIn => exact not_infix_of_notMem (value.notMem_text (by decide) (by decide))

-- A pair is cut at its separator, with the blanks beside it left to the names.
theorem cut_pair (kind : LoopKind) (key value : Variable) :
    ∃ gap, Blank gap ∧ cut (variableSeparator kind) (namesText kind (some key) value).toList =
      some (key.text.toList ++ gap, ' ' :: value.text.toList) := by
  cases kind with
  | foreach =>
    have hnames : (namesText .foreach (some key) value).toList =
        key.text.toList ++ [' '] ++ ['=', '>'] ++ ' ' :: value.text.toList := by
      simp [namesText]
    have hmark : '=' ∉ key.text.toList ++ [' '] := by
      simp [key.notMem_text (by decide : '=' ≠ '$') (by decide)]
    refine ⟨[' '], blank_space, ?_⟩
    rw [hnames]
    exact cut_of_notMem hmark _
  | forIn =>
    have hnames : (namesText .forIn (some key) value).toList =
        key.text.toList ++ [','] ++ ' ' :: value.text.toList := by
      simp [namesText]
    have hmark : ',' ∉ key.text.toList := key.notMem_text (by decide) (by decide)
    refine ⟨[], blank_nil, ?_⟩
    rw [hnames, List.append_nil]
    exact cut_of_notMem hmark _

end Names

section Reading

variable {kind : LoopKind} {header iterable : String} {names : List Char}

theorem LoopHeader.read_of_bare {value : String}
    (hsides : headerSides kind header.toList = some (iterable.toList, names))
    (hfilled : iterable ≠ "") (htrimmed : Text.trim iterable.toList = iterable.toList)
    (hcut : Text.cut (variableSeparator kind) names = none)
    (hvalue : loopVariable header names = .ok value) :
    LoopHeader.read kind header = .ok ⟨iterable, none, value⟩ := by
  unfold LoopHeader.read
  simp only [hsides, hcut, hvalue, htrimmed, String.ofList_toList]
  exact if_neg (by simpa using hfilled)

theorem LoopHeader.read_of_pair {front back : List Char} {key value : String}
    (hsides : headerSides kind header.toList = some (iterable.toList, names))
    (hfilled : iterable ≠ "") (htrimmed : Text.trim iterable.toList = iterable.toList)
    (hcut : Text.cut (variableSeparator kind) names = some (front, back))
    (hkey : loopVariable header front = .ok key) (hvalue : loopVariable header back = .ok value) :
    LoopHeader.read kind header = .ok ⟨iterable, some key, value⟩ := by
  unfold LoopHeader.read
  simp only [hsides, hcut, hkey, hvalue, htrimmed, String.ofList_toList]
  exact if_neg (by simpa using hfilled)

end Reading

-- A header is split where it was written: whatever the iterable holds, it is read again, and so are the
-- names that were put to it. A key that is the word of its kind of loop, or a value of the other kind,
-- would be taken for that word.
theorem LoopHeader.read_headerText (kind : LoopKind) (iterable : String) (key : Option Variable)
    (value : Variable) (hfilled : iterable ≠ "") (htrimmed : Text.trimmed iterable = iterable)
    (hkey : ∀ k ∈ key, k.name ∉ ["as", "in"]) (hvalue : value.name ∉ ["as", "in"]) :
    LoopHeader.read kind (headerText kind iterable key value) =
      .ok ⟨iterable, key.map (·.name), value.name⟩ := by
  have hsides : headerSides kind (headerText kind iterable key value).toList =
      some (iterable.toList, (namesText kind key value).toList) := by
    cases kind with
    | foreach =>
      refine headerSides_foreach iterable key value fun k hk => ?_
      exact k.toList_text_ne (fun h => hkey k hk (by simp [h])) (by decide)
    | forIn =>
      refine headerSides_forIn iterable key value fun _ => ?_
      exact value.toList_text_ne (fun h => hvalue (by simp [h])) (by decide)
  have hlist : Text.trim iterable.toList = iterable.toList := by
    simpa [Text.trimmed] using congrArg String.toList htrimmed
  cases key with
  | none =>
    refine read_of_bare hsides hfilled hlist (cut_bare kind value) ?_
    exact value.loopVariable_text _ Text.blank_nil Text.blank_nil (by simp [namesText])
  | some key =>
    obtain ⟨gap, hgap, hcut⟩ := cut_pair kind key value
    refine read_of_pair hsides hfilled hlist hcut ?_ ?_
    · exact key.loopVariable_text _ Text.blank_nil hgap rfl
    · exact value.loopVariable_text _ Text.blank_space Text.blank_nil (by simp)

-- The iterable holds both words and both separators.
theorem LoopHeader.read_headerText_crowded :
    LoopHeader.read .foreach "a in b, ' as k => ' as $k => v" = .ok ⟨"a in b, ' as k => '", some "k", "v"⟩ ∧
      LoopHeader.read .forIn "k, $v in a in b, ' as k => '" =
        .ok ⟨"a in b, ' as k => '", some "k", "v"⟩ := by
  refine ⟨?_, ?_⟩
  · exact read_headerText .foreach "a in b, ' as k => '" (some ⟨"k", true, by decide⟩)
      ⟨"v", false, by decide⟩ (by decide) (by decide) (by decide) (by decide)
  · exact read_headerText .forIn "a in b, ' as k => '" (some ⟨"k", false, by decide⟩)
      ⟨"v", true, by decide⟩ (by decide) (by decide) (by decide) (by decide)

example : LoopHeader.read .foreach "xs as as => v" =
    .error (.invalidLoop "xs as as => v" "'' is not a valid loop variable") := by
  decide

end TemplateEngine.Render
