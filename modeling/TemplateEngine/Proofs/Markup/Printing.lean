import TemplateEngine.Proofs.Markup.Walk

-- Trees are printed as the segments that their walk meets. Every segment of the print is what it
-- should be, and shows the piece it was printed for.
namespace TemplateEngine.Markup

-- A text with one blank before it and one behind it.
def padded (cs : List Char) : List Char := ' ' :: (cs ++ [' '])

def Directive.argument? : Directive → Option (List Char)
  | openIf text | elseIf text | openLoop _ text | openBlock text => some text.toList
  | extending name | including name => some ('\'' :: (name.toList ++ ['\'']))
  | openElse | endIf | endLoop _ | endBlock | parent => none

def Directive.wording (d : Directive) : List Char :=
  match d.argument? with
  | none => d.keyword.toList
  | some argument => d.keyword.toList ++ ' ' :: argument

-- Texts are printed as literal sections.
def Piece.segment : Piece → Segment
  | text content =>
    .literal (padded "literal".toList) content.toList
      ('{' :: '%' :: (padded "endliteral".toList ++ ['%', '}']))
  | echo expr filters _ =>
    .echo (padded (" | ".toList.intercalate ((expr :: filters).map String.toList)))
  | directive d => .tag (padded d.wording)

def printed (nodes : List Node) : List Char := written ((walkAll nodes).map Piece.segment)

-- A text that closes its quotes and does not close the span around it.
structure Unbroken (mark : Char) (cs : List Char) : Prop where
  quoted : Quoted cs
  whole : Whole mark .plain cs

-- A part of a span that can be printed.
structure Part (mark : Char) (part : String) : Prop where
  filled : part ≠ ""
  trimmed : Text.trim part.toList = part.toList
  unbroken : Unbroken mark part.toList

def Directive.Printable : Directive → Prop
  | openIf text | elseIf text | openLoop _ text => Part '%' text
  | openBlock name => Text.isLabel name.toList = true
  | extending name | including name => name ≠ "" ∧ ∀ c ∈ name.toList, c ≠ '\'' ∧ c ≠ '"' ∧ c ≠ '\\'
  | openElse | endIf | endLoop _ | endBlock | parent => True

def Piece.Printable : Piece → Prop
  | text content => content ≠ "" ∧ EndFree content.toList
  | echo expr filters escape =>
    escape = true ∧ ∀ part ∈ expr :: filters, Part '}' part ∧ barsPaired .plain part.toList = true
  | directive d => d.Printable

instance (mark : Char) (part : String) : Decidable (Part mark part) :=
  decidable_of_iff (part ≠ "" ∧ Text.trim part.toList = part.toList ∧ Quoted part.toList ∧
      Whole mark .plain part.toList)
    ⟨fun h => ⟨h.1, h.2.1, h.2.2.1, h.2.2.2⟩,
      fun h => ⟨h.filled, h.trimmed, h.unbroken.quoted, h.unbroken.whole⟩⟩

instance : DecidablePred Directive.Printable
  | .openIf _ | .elseIf _ | .openLoop _ _ => inferInstanceAs (Decidable (Part _ _))
  | .openBlock _ => inferInstanceAs (Decidable (_ = _))
  | .extending name | .including name =>
    decidable_of_iff (name ≠ "" ∧ (name.toList.all fun c => c ≠ '\'' && c ≠ '"' && c ≠ '\\') = true)
      (by simp [Directive.Printable, and_assoc])
  | .openElse | .endIf | .endLoop _ | .endBlock | .parent => .isTrue trivial

instance : DecidablePred Piece.Printable
  | .text _ => inferInstanceAs (Decidable (_ ∧ EndFree _))
  | .echo _ _ _ => inferInstanceAs (Decidable (_ ∧ ∀ part ∈ _, _))
  | .directive d => inferInstanceAs (Decidable d.Printable)

theorem unbroken_of_simple {mark : Char} {cs : List Char}
    (h : ∀ c ∈ cs, c ≠ '\'' ∧ c ≠ '"' ∧ c ≠ '}') : Unbroken mark cs := by
  refine ⟨Mode.plain_after fun c hc => ⟨(h c hc).1, (h c hc).2.1⟩, fun before rest hsplit => ?_⟩
  have hbrace := (h '}' (by simp [hsplit])).2.2
  exact absurd rfl hbrace

theorem Unbroken.append {mark : Char} {cs ds : List Char} (h : Unbroken mark cs) (h' : Unbroken mark ds)
    (hjoin : cs.getLast? = some mark → ds.head? ≠ some '}') : Unbroken mark (cs ++ ds) := by
  have hmode : Mode.plain.after cs = .plain := h.quoted
  refine ⟨?_, whole_append h.whole (hmode.symm ▸ h'.whole) hjoin⟩
  unfold Quoted
  rw [Mode.after_append, hmode]
  exact h'.quoted

theorem unbroken_space (mark : Char) : Unbroken mark [' '] := unbroken_of_simple (by simp)

theorem Unbroken.padded {mark : Char} (hmark : mark ≠ ' ') {cs : List Char} (h : Unbroken mark cs) :
    Unbroken mark (padded cs) := by
  have hback := h.append (unbroken_space mark) (by simp)
  exact (unbroken_space mark).append hback fun hlast => absurd (Option.some.inj hlast).symm hmark

theorem getLast?_padded (cs : List Char) : (padded cs).getLast? = some ' ' := by
  unfold padded
  rw [← List.cons_append, List.getLast?_concat]

theorem closes_padded {mark : Char} (hmark : mark ≠ ' ') {cs : List Char} (h : Unbroken mark cs) :
    Closes mark .plain (padded cs) := by
  have hpadded := h.padded hmark
  have hmode : Mode.plain.after (padded cs) = .plain := hpadded.quoted
  have hbehind : Whole mark .plain [mark] := whole_cons.mpr ⟨whole_nil _ _, by simp⟩
  refine ⟨hmode, whole_append hpadded.whole (hmode.symm ▸ hbehind) fun hlast => ?_⟩
  rw [getLast?_padded] at hlast
  exact absurd (Option.some.inj hlast).symm hmark

theorem trim_padded (cs : List Char) : Text.trim (padded cs) = Text.trim cs :=
  Text.trim_pad Text.blank_space Text.blank_space cs

theorem padded_intercalate (part : List Char) (parts : List (List Char)) :
    padded (" | ".toList.intercalate (part :: parts)) =
      ['|'].intercalate ((part :: parts).map padded) := by
  induction parts generalizing part with
  | nil => simp [padded]
  | cons other parts ih =>
    rw [List.map_cons, List.map_cons, intercalate_cons_cons, ← List.map_cons, ← ih]
    simp [padded, List.intercalate]

theorem unbroken_intercalate {part : List Char} {parts : List (List Char)}
    (h : ∀ other ∈ part :: parts, Unbroken '}' other) :
    Unbroken '}' (" | ".toList.intercalate (part :: parts)) := by
  induction parts generalizing part with
  | nil => simpa using h
  | cons other parts ih =>
    obtain ⟨hpart, hparts⟩ := List.forall_mem_cons.mp h
    have hbar : Unbroken '}' " | ".toList := unbroken_of_simple (by simp)
    have hrest := hbar.append (ih hparts) fun hlast => absurd hlast (by decide)
    have hsplit : " | ".toList.intercalate (part :: other :: parts) =
        part ++ (" | ".toList ++ " | ".toList.intercalate (other :: parts)) := by
      simp [List.intercalate]
    rw [hsplit]
    exact hpart.append hrest fun _ => by simp

theorem barsPaired_padded {cs : List Char} (hquoted : Quoted cs) (h : barsPaired .plain cs = true) :
    barsPaired .plain (padded cs) = true := by
  have hmode : Mode.plain.after cs = .plain := hquoted
  have hfront : barsPaired .plain (padded cs) = barsPaired .plain (cs ++ [' ']) := by
    unfold padded
    rw [barsPaired] <;> simp [Mode.next]
  rw [hfront, barsPaired_append h, hmode]
  rfl

-- The print of an echo spells it.
theorem echoSpelled_printed {expr : String} {filters : List String} {escape : Bool}
    (h : (Piece.echo expr filters escape).Printable) :
    EchoSpelled (padded (" | ".toList.intercalate ((expr :: filters).map String.toList))) expr
      filters := by
  obtain ⟨-, hparts⟩ := h
  obtain ⟨hexpr, hfilters⟩ := List.forall_mem_cons.mp hparts
  have hquoted (part : String) (hpart : Part '}' part) : Quoted (padded part.toList) :=
    (hpart.unbroken.padded (by decide)).quoted
  refine ⟨padded expr.toList, filters.map fun filter => padded filter.toList, ⟨?_, ?_, ?_, ?_⟩, ?_, ?_⟩
  · rw [List.map_cons, padded_intercalate, List.map_cons, List.map_map]
    rfl
  · exact ⟨hquoted expr hexpr.1, List.forall_mem_map.mpr fun filter hfilter =>
      hquoted filter (hfilters filter hfilter).1⟩
  · refine ⟨barsPaired_padded hexpr.1.unbroken.quoted hexpr.2, ?_⟩
    exact List.forall_mem_map.mpr fun filter hfilter =>
      barsPaired_padded (hfilters filter hfilter).1.unbroken.quoted (hfilters filter hfilter).2
  · exact List.forall_mem_map.mpr fun filter hfilter => by simp [padded]
  · rw [List.map_cons, List.map_cons, List.map_map, trim_padded, hexpr.1.trimmed]
    refine congrArg _ (List.map_congr_left fun filter hfilter => ?_)
    exact (trim_padded _).trans (hfilters filter hfilter).1.trimmed
  · intro hempty
    exact (hparts "" hempty).1.filled rfl

theorem Word.unbroken {mark : Char} {word : String} (h : Word word) : Unbroken mark word.toList := by
  refine unbroken_of_simple fun c hc => ?_
  have hsmall := List.all_eq_true.mp h.small c hc
  refine ⟨?_, ?_, ?_⟩ <;> rintro rfl <;> exact absurd hsmall (by decide)

-- Inside single quotes a name has nothing that counts.
theorem unbroken_quoted {mark : Char} {name : List Char} (hmark : mark ≠ '\'')
    (h : ∀ c ∈ name, c ≠ '\'' ∧ c ≠ '\\') : Unbroken mark ('\'' :: (name ++ ['\''])) := by
  have hinside : Mode.after (.quoted '\'') (name ++ ['\'']) = .plain ∧
      Whole mark (.quoted '\'') (name ++ ['\'']) := by
    induction name with
    | nil => exact ⟨rfl, whole_cons.mpr ⟨whole_nil _ _, by simp⟩⟩
    | cons c name ih =>
      obtain ⟨hc, hname⟩ := List.forall_mem_cons.mp h
      have hnext : Mode.next (.quoted '\'') c = .quoted '\'' := by simp [Mode.next, hc]
      obtain ⟨hmode, hwhole⟩ := ih hname
      rw [List.cons_append, Mode.after_cons, whole_cons, hnext]
      exact ⟨hmode, hwhole, by simp⟩
  exact ⟨hinside.1, whole_cons.mpr ⟨hinside.2, fun h => hmark h.2.1.symm⟩⟩

theorem Directive.argument_printable {d : Directive} (h : d.Printable) {argument : List Char}
    (hargument : d.argument? = some argument) :
    argument ≠ [] ∧ Text.trim argument = argument ∧ Unbroken '%' argument ∧ d.Takes argument := by
  cases d with
  | openIf text | elseIf text | openLoop _ text =>
    cases hargument
    exact ⟨by simpa using h.filled, h.trimmed, h.unbroken, rfl, h.filled⟩
  | openBlock name =>
    cases hargument
    have hlabel := Text.forall_mem_of_isLabel h
    refine ⟨?_, Text.trim_of_not_blank fun c hc => Text.not_blank_of_label (hlabel c hc), ?_, rfl, h⟩
    · intro hnil
      rw [Directive.Printable, hnil] at h
      cases h
    · refine unbroken_of_simple fun c hc => ⟨?_, ?_, ?_⟩ <;> rintro rfl
      all_goals exact absurd (hlabel _ hc) (by decide)
  | extending name | including name =>
    cases hargument
    obtain ⟨hne, hname⟩ := h
    have hends := Text.trim_of_ends (c := '\'') (d := '\'') (by decide) (by decide) name.toList
    exact ⟨by simp, hends, unbroken_quoted (by decide) fun c hc => ⟨(hname c hc).1, (hname c hc).2.2⟩,
      '\'', .inl rfl, rfl, hne⟩
  | _ => cases hargument

theorem Directive.takes_nothing {d : Directive} (h : d.argument? = none) : d.Takes [] := by
  cases d with
  | openElse | endIf | endLoop _ | parent => rfl
  | endBlock => trivial
  | _ => cases h

-- The print of a tag spells its directive.
theorem spelled_wording {d : Directive} (h : d.Printable) : d.Spelled (padded d.wording) := by
  unfold Directive.wording
  cases hargument : d.argument? with
  | none =>
    have hwords : Words (padded d.keyword.toList) d.keyword [] :=
      ⟨[' '], [], [' '], Text.blank_space, Text.blank_nil, Text.blank_space, by simp [padded], rfl, by simp⟩
    exact .inl ⟨[], hwords, Directive.takes_nothing hargument⟩
  | some argument =>
    obtain ⟨-, htrim, -, htakes⟩ := Directive.argument_printable h hargument
    have hwords : Words (padded (d.keyword.toList ++ ' ' :: argument)) d.keyword argument :=
      ⟨[' '], [' '], [' '], Text.blank_space, Text.blank_space, Text.blank_space, by simp [padded], htrim,
        by simp⟩
    exact .inl ⟨argument, hwords, htakes⟩

theorem unbroken_wording {d : Directive} (h : d.Printable) : Unbroken '%' d.wording := by
  have hkeyword : Unbroken '%' d.keyword.toList := d.keyword_word.unbroken
  unfold Directive.wording
  cases hargument : d.argument? with
  | none => exact hkeyword
  | some argument =>
    obtain ⟨-, -, hunbroken, -⟩ := Directive.argument_printable h hargument
    have hrest : Unbroken '%' ([' '] ++ argument) :=
      (unbroken_space '%').append hunbroken fun hlast => absurd hlast (by decide)
    exact hkeyword.append hrest fun _ => by simp

theorem Directive.Spelled.trim_ne {body : List Char} {d : Directive} (h : d.Spelled body) :
    Text.trim body ≠ "literal".toList := by
  intro htrim
  have hread := h.readDirective
  unfold Markup.readDirective splitKeyword at hread
  rw [htrim] at hread
  cases hread

-- Every segment of a print is a span of the kind it seems to be.
theorem Piece.segment_wellFormed {piece : Piece} (h : piece.Printable) :
    piece.segment.WellFormed ∧ piece.segment.IsSpan := by
  cases piece with
  | text content =>
    have hliteral : Word "literal" := by decide
    refine ⟨⟨⟨closes_padded (by decide) hliteral.unbroken, ?_⟩, h.2, ?_⟩, trivial⟩
    · exact trim_padded _
    · exact ⟨[' '], [' '], Text.blank_space, Text.blank_space, rfl⟩
  | echo expr filters escape =>
    have hparts : ∀ part ∈ (expr :: filters).map String.toList, Unbroken '}' part :=
      List.forall_mem_map.mpr fun part hpart => (h.2 part hpart).1.unbroken
    exact ⟨closes_padded (by decide) (unbroken_intercalate hparts), trivial⟩
  | directive d =>
    exact ⟨⟨closes_padded (by decide) (unbroken_wording h), (spelled_wording h).trim_ne⟩, trivial⟩

theorem Piece.segment_shows {piece : Piece} (h : piece.Printable) :
    piece.segment.Shows piece ∧ piece.segment.isShown = true := by
  cases piece with
  | text content =>
    refine ⟨congrArg Piece.text String.ofList_toList.symm, ?_⟩
    simpa [segment, Segment.isShown] using h.1
  | echo expr filters escape =>
    obtain rfl : escape = true := h.1
    exact ⟨⟨expr, filters, rfl, echoSpelled_printed h⟩, rfl⟩
  | directive d => exact ⟨⟨d, rfl, spelled_wording h⟩, rfl⟩

end TemplateEngine.Markup
