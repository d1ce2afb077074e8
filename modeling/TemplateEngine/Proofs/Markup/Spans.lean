import TemplateEngine.Proofs.Markup.Quotes
import TemplateEngine.Proofs.Runs
import TemplateEngine.Proofs.Text.Blanks
import TemplateEngine.Proofs.Text.Cuts

-- Where a span opens and closes: at the first place where it can, and nowhere else.
namespace TemplateEngine.Markup

def Delimiter.second : Delimiter → Char
  | echo => '{'
  | tag => '%'
  | comment => '#'

theorem Delimiter.ofChar?_eq_some_iff {c : Char} {d : Delimiter} :
    Delimiter.ofChar? c = some d ↔ c = d.second := by
  unfold Delimiter.ofChar?
  cases d <;> simp only [Delimiter.second] <;> grind

theorem Delimiter.toList_opener (d : Delimiter) : d.opener.toList = ['{', d.second] := by
  cases d <;> rfl

-- A text in which no span opens.
def SpanFree (cs : List Char) : Prop := ∀ d : Delimiter, ¬d.opener.toList <:+: cs

theorem spanFree_nil : SpanFree [] := by
  intro d h
  have hlength := h.length_le
  simp [Delimiter.toList_opener] at hlength

theorem spanFree_cons {c : Char} {cs : List Char} :
    SpanFree (c :: cs) ↔ (∀ d : Delimiter, ¬d.opener.toList <+: c :: cs) ∧ SpanFree cs := by
  simp only [SpanFree, List.infix_cons_iff, not_or, forall_and]

theorem opener?_append (d : Delimiter) (rest : List Char) :
    (opener? (d.opener.toList ++ rest)).map (fun (d, rest) => (d, rest.val)) = some (d, rest) := by
  cases d <;> rfl

theorem opener?_eq_some {cs : List Char} {d : Delimiter} {rest : Shorter cs}
    (h : opener? cs = some (d, rest)) : cs = d.opener.toList ++ rest.val := by
  rw [Delimiter.toList_opener]
  unfold opener? at h
  split at h
  · next c cs =>
    obtain ⟨e, he, heq⟩ := Option.map_eq_some_iff.mp h
    cases heq
    simp [Delimiter.ofChar?_eq_some_iff.mp he]
  · cases h

theorem opener?_eq_none {cs : List Char} (h : opener? cs = none) (d : Delimiter) :
    ¬d.opener.toList <+: cs := by
  rintro ⟨rest, rfl⟩
  have happend := opener?_append d rest
  rw [h] at happend
  cases happend

theorem cutOpener_eq_none {cs : List Char} (h : cutOpener cs = none) : SpanFree cs := by
  induction cs with
  | nil => exact spanFree_nil
  | cons c cs ih =>
    unfold cutOpener at h
    split at h
    · cases h
    · next hopener =>
      rw [Option.map_eq_none_iff] at h
      exact spanFree_cons.mpr ⟨opener?_eq_none hopener, ih h⟩

theorem SpanFree.mono {cs ds : List Char} (h : SpanFree ds) (hcs : cs <:+: ds) : SpanFree cs :=
  fun d hd => h d (hd.trans hcs)

theorem spanFree_brace : SpanFree ['{'] := by
  intro d h
  have hlength := h.length_le
  simp [Delimiter.toList_opener] at hlength

-- The text before the first span holds none, and neither does its last character open one.
theorem cutOpener_eq_some {cs before : List Char} {d : Delimiter} {rest : Shorter cs}
    (h : cutOpener cs = some (before, d, rest)) :
    cs = before ++ d.opener.toList ++ rest.val ∧ SpanFree (before ++ ['{']) := by
  induction cs generalizing before d with
  | nil => cases h
  | cons c cs ih =>
    unfold cutOpener at h
    split at h
    · next e r hopener =>
      cases h
      exact ⟨opener?_eq_some hopener, spanFree_brace⟩
    · next hopener =>
      obtain ⟨⟨b, e, r⟩, hcut, heq⟩ := Option.map_eq_some_iff.mp h
      cases heq
      obtain ⟨hsplit, hfree⟩ := ih hcut
      refine ⟨by simp [← hsplit], spanFree_cons.mpr ⟨fun f hf => ?_, hfree⟩⟩
      refine opener?_eq_none hopener f (hf.trans (List.cons_prefix_cons.mpr ⟨rfl, ?_⟩))
      exact ⟨d.second :: r.val, by rw [← List.append_cancel_left_eq [c]]; simp [hsplit, Delimiter.toList_opener]⟩

-- A tag that ends a literal section, with any blanks around its name.
def IsEndLiteral (cs : List Char) : Prop :=
  ∃ inner outer : List Char, Text.Blank inner ∧ Text.Blank outer ∧
    cs = ['{', '%'] ++ inner ++ "endliteral".toList ++ outer ++ ['%', '}']

theorem dropWhile_blanks {blanks rest : List Char} {c : Char} (h : Text.Blank blanks)
    (hc : Text.isBlank c = false) : (blanks ++ c :: rest).dropWhile Text.isBlank = c :: rest := by
  rw [List.dropWhile_append_of_pos h, List.dropWhile_cons_of_neg (by simp [hc])]

theorem endLiteral_eq_some {cs : List Char} {rest : NotLonger cs} (h : endLiteral cs = some rest) :
    ∃ closing, IsEndLiteral closing ∧ cs = closing ++ rest.val := by
  simp only [endLiteral, Option.bind_eq_bind, Option.bind_eq_some_iff] at h
  obtain ⟨opened, hopened, named, hnamed, closed, hclosed, h⟩ := h
  cases h
  refine ⟨_, ⟨opened.val.takeWhile Text.isBlank, named.val.takeWhile Text.isBlank,
    Text.blank_takeWhile _, Text.blank_takeWhile _, rfl⟩, ?_⟩
  have hinner : opened.val.dropWhile Text.isBlank = "endliteral".toList ++ named.val :=
    Text.exactly_eq_some hnamed
  have houter : named.val.dropWhile Text.isBlank = ['%', '}'] ++ closed.val :=
    Text.exactly_eq_some hclosed
  calc
    cs = ['{', '%'] ++ opened.val := Text.exactly_eq_some hopened
    _ = ['{', '%'] ++ (opened.val.takeWhile Text.isBlank ++ ("endliteral".toList ++
          (named.val.takeWhile Text.isBlank ++ (['%', '}'] ++ closed.val)))) := by
      rw [← houter, List.takeWhile_append_dropWhile, ← hinner, List.takeWhile_append_dropWhile]
    _ = _ := by
      simp only [List.append_assoc]
      rfl

theorem endLiteral_of_eq {cs closing rest : List Char} (hclosing : IsEndLiteral closing)
    (h : cs = closing ++ rest) : ∃ r : NotLonger cs, endLiteral cs = some r ∧ r.val = rest := by
  obtain ⟨inner, outer, hinner, houter, rfl⟩ := hclosing
  have hopen : cs = ['{', '%'] ++ (inner ++ ("endliteral".toList ++ (outer ++ (['%', '}'] ++ rest)))) := by
    simp [h]
  obtain ⟨opened, hopened, hopenedval⟩ := Text.exactly_of_eq hopen
  have hname : (NotLonger.dropWhile Text.isBlank opened.val).val =
      "endliteral".toList ++ (outer ++ (['%', '}'] ++ rest)) := by
    simp only [NotLonger.dropWhile, hopenedval]
    exact dropWhile_blanks hinner (by decide)
  obtain ⟨named, hnamed, hnamedval⟩ := Text.exactly_of_eq hname
  have hclose : (NotLonger.dropWhile Text.isBlank named.val).val = ['%', '}'] ++ rest := by
    simp only [NotLonger.dropWhile, hnamedval]
    exact dropWhile_blanks houter (by decide)
  obtain ⟨closed, hclosed, hclosedval⟩ := Text.exactly_of_eq hclose
  simp only [endLiteral, hopened, hnamed, hclosed, Option.bind_eq_bind, Option.bind_some]
  exact ⟨_, rfl, hclosedval⟩

theorem IsEndLiteral.eq_cons {closing : List Char} (h : IsEndLiteral closing) :
    ∃ rest, closing = '{' :: rest ∧ '{' ∉ rest := by
  obtain ⟨inner, outer, hinner, houter, rfl⟩ := h
  have hbrace : ∀ blanks : List Char, Text.Blank blanks → '{' ∉ blanks :=
    fun blanks hblanks hmem => absurd (hblanks '{' hmem) (by decide)
  refine ⟨'%' :: (inner ++ ("endliteral".toList ++ (outer ++ ['%', '}']))), by simp, ?_⟩
  simp only [List.mem_cons, List.mem_append, not_or]
  exact ⟨by decide, hbrace inner hinner, by decide, hbrace outer houter, by decide⟩

-- No tag in a text ends a literal section.
def EndFree (cs : List Char) : Prop := ∀ closing, IsEndLiteral closing → ¬closing <:+: cs

-- An end tag has only one brace that opens, at its front. So none begins in a text and reaches into
-- an end tag behind it.
theorem endLiteral_eq_none {content closing : List Char} (hcontent : content ≠ [])
    (hfree : EndFree content) (hclosing : IsEndLiteral closing) (rest : List Char) :
    endLiteral (content ++ (closing ++ rest)) = none := by
  cases hend : endLiteral (content ++ (closing ++ rest)) with
  | none => rfl
  | some r =>
    obtain ⟨other, hother, hsplit⟩ := endLiteral_eq_some hend
    obtain ⟨closed, rfl, -⟩ := hclosing.eq_cons
    obtain ⟨tail, htail, hbrace⟩ := hother.eq_cons
    exfalso
    rcases List.append_eq_append_iff.mp hsplit with ⟨more, hmore, hrest⟩ | ⟨more, hmore, -⟩
    · cases more with
      | nil => exact hfree other hother ⟨[], [], by simp [hmore]⟩
      | cons c more =>
        obtain rfl : c = '{' := by
          simp only [List.cons_append, List.cons.injEq] at hrest
          exact hrest.1.symm
        cases content with
        | nil => exact hcontent rfl
        | cons d content =>
          rw [htail] at hmore
          simp only [List.cons_append, List.cons.injEq] at hmore
          exact hbrace (by simp [hmore.2])
    · exact hfree other hother ⟨[], more, by simp [hmore]⟩

theorem endFree_nil : EndFree [] := by
  intro closing hclosing hwithin
  obtain ⟨tail, rfl, -⟩ := hclosing.eq_cons
  cases List.infix_nil.mp hwithin

theorem EndFree.tail {c : Char} {cs : List Char} (h : EndFree (c :: cs)) : EndFree cs :=
  fun closing hclosing hwithin => h closing hclosing (hwithin.trans (List.suffix_cons c cs).isInfix)

theorem cutWith_endLiteral {cs content closing rest : List Char} (hfree : EndFree content)
    (hclosing : IsEndLiteral closing) (h : cs = content ++ (closing ++ rest)) :
    ∃ r : NotLonger cs, Text.cutWith endLiteral cs = some (content, r) ∧ r.val = rest := by
  induction content generalizing cs with
  | nil =>
    obtain ⟨r, hr, hval⟩ := endLiteral_of_eq hclosing h
    refine ⟨r, ?_, hval⟩
    unfold Text.cutWith
    rw [hr]
  | cons c content ih =>
    have hnone := endLiteral_eq_none (List.cons_ne_nil c content) hfree hclosing rest
    obtain ⟨r, hr, hval⟩ := ih hfree.tail rfl
    subst h
    refine ⟨r.cons.loosen, ?_, hval⟩
    unfold Text.cutWith
    rw [hnone]
    simp [hr]

theorem cutWith_endLiteral_eq_some {cs content : List Char} {rest : NotLonger cs}
    (h : Text.cutWith endLiteral cs = some (content, rest)) :
    ∃ closing, IsEndLiteral closing ∧ cs = content ++ (closing ++ rest.val) ∧ EndFree content := by
  induction cs generalizing content with
  | nil =>
    unfold Text.cutWith at h
    split at h
    · next r hr =>
      cases h
      obtain ⟨closing, hclosing, hsplit⟩ := endLiteral_eq_some hr
      obtain ⟨tail, rfl, -⟩ := hclosing.eq_cons
      cases hsplit
    · cases h
  | cons c cs ih =>
    unfold Text.cutWith at h
    split at h
    · next r hr =>
      cases h
      obtain ⟨closing, hclosing, hsplit⟩ := endLiteral_eq_some hr
      exact ⟨closing, hclosing, hsplit, endFree_nil⟩
    · next hnone =>
      obtain ⟨⟨front, r⟩, hr, he⟩ := Option.map_eq_some_iff.mp h
      cases he
      obtain ⟨closing, hclosing, hsplit, hfree⟩ := ih hr
      refine ⟨closing, hclosing, by simp [← hsplit], fun other hother hwithin => ?_⟩
      rcases List.infix_cons_iff.mp hwithin with ⟨more, hmore⟩ | hwithin
      · have hfront : c :: cs = other ++ (more ++ (closing ++ r.val)) :=
          calc
            c :: cs = c :: front ++ (closing ++ r.val) := congrArg (c :: ·) hsplit
            _ = other ++ (more ++ (closing ++ r.val)) := by rw [← hmore, List.append_assoc]
        obtain ⟨s, hs, -⟩ := endLiteral_of_eq hother hfront
        rw [hnone] at hs
        cases hs
      · exact hfree other hother hwithin

-- The text that a literal section may hold is the one in which its reader finds no end.
theorem endFree_iff {cs : List Char} : EndFree cs ↔ Text.cutWith endLiteral cs = none := by
  constructor
  · intro h
    rw [Option.eq_none_iff_forall_ne_some]
    rintro ⟨content, rest⟩ hcut
    obtain ⟨closing, hclosing, hsplit, -⟩ := cutWith_endLiteral_eq_some hcut
    exact h closing hclosing ⟨content, rest.val, (List.append_assoc ..).trans hsplit.symm⟩
  · intro h
    induction cs with
    | nil => exact endFree_nil
    | cons c cs ih =>
      unfold Text.cutWith at h
      split at h
      · cases h
      · next hnone =>
        intro closing hclosing hwithin
        rcases List.infix_cons_iff.mp hwithin with ⟨rest, hrest⟩ | hwithin
        · obtain ⟨r, hr, -⟩ := endLiteral_of_eq hclosing hrest.symm
          rw [hnone] at hr
          cases hr
        · exact ih (Option.map_eq_none_iff.mp h) closing hclosing hwithin

instance (cs : List Char) : Decidable (EndFree cs) := decidable_of_iff _ endFree_iff.symm

-- What may stand in a span: its own closing delimiter is the first one in it that counts.
def Delimiter.Holds (d : Delimiter) (body : List Char) : Prop :=
  match d with
  | comment => ¬['#', '}'] <:+: body ++ ['#']
  | d => Closes d.mark .plain body

theorem cutCloser_eq_some {d : Delimiter} {cs body : List Char} {rest : NotLonger cs}
    (h : cutCloser d cs = some (body, rest)) : cs = body ++ d.mark :: '}' :: rest.val ∧ d.Holds body := by
  have hquotes (hmark : d.mark ≠ '\'' ∧ d.mark ≠ '"') (h : cutUnquoted d.mark none cs = some (body, rest)) :
      cs = body ++ d.mark :: '}' :: rest.val ∧ Closes d.mark .plain body :=
    (cutUnquoted_eq_some_iff hmark).mp (by rw [h]; rfl)
  cases d with
  | echo => exact hquotes (by decide) h
  | tag => exact hquotes (by decide) h
  | comment =>
    exact ⟨by simpa [Delimiter.mark] using Text.cutWith_exactly h, Text.cutWith_exactly_first h (by simp)⟩

theorem cutCloser_of_eq {d : Delimiter} {cs body rest : List Char} (hbody : d.Holds body)
    (h : cs = body ++ d.mark :: '}' :: rest) :
    ∃ r : NotLonger cs, cutCloser d cs = some (body, r) ∧ r.val = rest := by
  have hquotes (hmark : d.mark ≠ '\'' ∧ d.mark ≠ '"') (hbody : Closes d.mark .plain body) :
      ∃ r : NotLonger cs, cutUnquoted d.mark none cs = some (body, r) ∧ r.val = rest := by
    obtain ⟨⟨b, r⟩, hr, heq⟩ := Option.map_eq_some_iff.mp ((cutUnquoted_eq_some_iff hmark).mpr ⟨h, hbody⟩)
    obtain ⟨rfl, hval⟩ := Prod.mk.inj heq
    exact ⟨r, hr, hval⟩
  cases d with
  | echo => exact hquotes (by decide) hbody
  | tag => exact hquotes (by decide) hbody
  | comment => exact Text.cutWith_exactly_of_eq (by simp) hbody (by simpa [Delimiter.mark] using h)

theorem cutCloser_eq_none {d : Delimiter} {cs : List Char} (h : cutCloser d cs = none) {body : List Char}
    (hbody : d.Holds body) : ¬body ++ [d.mark, '}'] <+: cs := by
  rintro ⟨rest, hrest⟩
  have hsplit : cs = body ++ d.mark :: '}' :: rest := by simpa using hrest.symm
  obtain ⟨r, hr, -⟩ := cutCloser_of_eq hbody hsplit
  rw [h] at hr
  cases hr

def Segment.WellFormed : Segment → Prop
  | text content => content ≠ [] ∧ SpanFree content
  | echo body => Delimiter.echo.Holds body
  | tag body => Delimiter.tag.Holds body ∧ Text.trim body ≠ "literal".toList
  | comment body => Delimiter.comment.Holds body
  | literal body content closing =>
    (Delimiter.tag.Holds body ∧ Text.trim body = "literal".toList) ∧ EndFree content ∧ IsEndLiteral closing

-- The text that some segments stand for, one after the other.
def written (segments : List Segment) : List Char := segments.flatMap Segment.written

@[simp] theorem written_nil : written [] = [] := rfl

@[simp] theorem written_cons (s : Segment) (others : List Segment) :
    written (s :: others) = s.written ++ written others := rfl

@[simp] theorem written_append (segments others : List Segment) :
    written (segments ++ others) = written segments ++ written others :=
  List.flatMap_append

theorem written_ofSpan (d : Delimiter) (body : List Char) :
    (Segment.ofSpan d body).written = d.opener.toList ++ (body ++ [d.mark, '}']) := by
  rw [Delimiter.toList_opener]
  cases d <;> rfl

theorem wellFormed_ofSpan {d : Delimiter} {body : List Char} (hbody : d.Holds body)
    (hliteral : isLiteralTag d body = false) : (Segment.ofSpan d body).WellFormed := by
  cases d with
  | echo => exact hbody
  | tag => exact ⟨hbody, by simpa [isLiteralTag] using hliteral⟩
  | comment => exact hbody

end TemplateEngine.Markup
