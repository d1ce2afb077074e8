import TemplateEngine.Proofs.Markup.Spans

-- How a source is cut into its segments: in one way only, to the last character, and with every segment
-- on the line it begins on. Spans put together are taken apart again.
namespace TemplateEngine.Markup

def Segment.IsText : Segment → Prop
  | text _ => True
  | echo _ | tag _ | comment _ | literal _ _ _ => False

theorem not_isText_ofSpan (d : Delimiter) (body : List Char) : ¬(Segment.ofSpan d body).IsText := by
  cases d <;> exact id

-- Segments that are cut off a source from its front on, and what is left of it. Text reaches to the next
-- opening delimiter, or to the end if there is none.
inductive Cut : List Char → List Segment → List Char → Prop
  | nil (cs : List Char) : Cut cs [] cs
  | text {content rest left : List Char} {segs : List Segment} (hcontent : content ≠ [])
      (hfree : SpanFree (content ++ rest.take 1))
      (hrest : rest = [] ∨ ∃ d : Delimiter, d.opener.toList <+: rest) (hsegs : Cut rest segs left) :
      Cut (content ++ rest) (.text content :: segs) left
  | span {s : Segment} {rest left : List Char} {segs : List Segment} (hs : s.WellFormed)
      (hspan : ¬s.IsText) (hsegs : Cut rest segs left) : Cut (s.written ++ rest) (s :: segs) left

theorem Cut.written {cs left : List Char} {segs : List Segment} (h : Cut cs segs left) :
    cs = written segs ++ left := by
  induction h with
  | nil => rfl
  | text _ _ _ _ ih | span _ _ _ ih => exact (congrArg (_ ++ ·) ih).trans (List.append_assoc ..).symm

theorem Cut.wellFormed {cs left : List Char} {segs : List Segment} (h : Cut cs segs left) :
    ∀ s ∈ segs, s.WellFormed := by
  induction h with
  | nil => simp
  | text hcontent hfree _ _ ih =>
    exact List.forall_mem_cons.mpr ⟨⟨hcontent, hfree.mono (List.prefix_append _ _).isInfix⟩, ih⟩
  | span hs _ _ ih => exact List.forall_mem_cons.mpr ⟨hs, ih⟩

-- Why no further segment is cut off a text, and what of it is read before that shows.
inductive Stuck : List Char → List Char → Fault → Prop
  | delimiter {d : Delimiter} {rest : List Char}
      (hopen : ∀ body, d.Holds body → ¬body ++ [d.mark, '}'] <+: rest) :
      Stuck (d.opener.toList ++ rest) [] (.unclosedDelimiter d.opener)
  | literal {body rest : List Char} (hbody : Delimiter.tag.Holds body)
      (hliteral : Text.trim body = "literal".toList) (hfree : EndFree rest) :
      Stuck ((Segment.tag body).written ++ rest) (Segment.tag body).written .unclosedLiteral

-- Segments with the lines they begin on.
def located (line : Nat) : List Segment → List Placed
  | [] => []
  | s :: segs => ⟨line, s⟩ :: located (line + Text.newlines s.written) segs

-- What the segments of a text come to: all of it is cut, and every segment keeps its line, or a fault is
-- reported for the line where it lies.
inductive Segmented (line : Nat) (cs : List Char) : Except Error (List Placed) → Prop
  | whole {segs : List Segment} (hcut : Cut cs segs []) : Segmented line cs (.ok (located line segs))
  | stuck {segs : List Segment} {left lead : List Char} {fault : Fault} (hcut : Cut cs segs left)
      (hstuck : Stuck left lead fault) :
      Segmented line cs (.error ⟨line + Text.newlines (written segs ++ lead), fault⟩)

def textRun (content : List Char) : List Segment := if content.isEmpty then [] else [.text content]

theorem written_textRun (content : List Char) : written (textRun content) = content := by
  unfold textRun
  split
  · next hempty => exact (List.isEmpty_iff.mp hempty).symm
  · simp [Segment.written]

theorem located_textRun (line : Nat) (content : List Char) (segs : List Segment) :
    located line (textRun content ++ segs) =
      textSegment line content ++ located (line + Text.newlines content) segs := by
  unfold textRun textSegment
  split
  · next hempty => simp [List.isEmpty_iff.mp hempty, Text.newlines]
  · rfl

theorem Cut.textRun {content rest left : List Char} {segs : List Segment}
    (hcontent : SpanFree (content ++ rest.take 1))
    (hrest : rest = [] ∨ ∃ d : Delimiter, d.opener.toList <+: rest) (hsegs : Cut rest segs left) :
    Cut (content ++ rest) (textRun content ++ segs) left := by
  unfold Markup.textRun
  split
  · next hempty => simpa [List.isEmpty_iff.mp hempty] using hsegs
  · next hfilled => exact .text (by simpa using hfilled) hcontent hrest hsegs

-- Text, and what stands behind it from an opening delimiter on.
theorem Cut.behind {before rest left : List Char} {d : Delimiter} {segs : List Segment}
    (hbefore : SpanFree (before ++ ['{'])) (hsegs : Cut (d.opener.toList ++ rest) segs left) :
    Cut (before ++ (d.opener.toList ++ rest)) (Markup.textRun before ++ segs) left := by
  refine .textRun ?_ (.inr ⟨d, List.prefix_append _ _⟩) hsegs
  rw [Delimiter.toList_opener]
  exact hbefore

theorem Segment.exists_opener {s : Segment} (hspan : ¬s.IsText) :
    ∃ (d : Delimiter) (body : List Char), s.written = d.opener.toList ++ body := by
  cases s with
  | text => exact absurd trivial hspan
  | echo body => exact ⟨.echo, _, rfl⟩
  | tag body => exact ⟨.tag, _, rfl⟩
  | comment body => exact ⟨.comment, _, rfl⟩
  | literal body content closing => exact ⟨.tag, _, rfl⟩

theorem Segmented.behind {line next : Nat} {before rest : List Char} {s : Segment}
    {result : Except Error (List Placed)} (hbefore : SpanFree (before ++ ['{'])) (hs : s.WellFormed)
    (hspan : ¬s.IsText) (hnext : next = line + Text.newlines before + Text.newlines s.written)
    (h : Segmented next rest result) :
    Segmented line (before ++ (s.written ++ rest))
      (result.map fun more => textSegment line before ++ ⟨line + Text.newlines before, s⟩ :: more) := by
  subst hnext
  obtain ⟨d, body, hopener⟩ := s.exists_opener hspan
  have hcut {segs : List Segment} {left : List Char} (hsegs : Cut rest segs left) :
      Cut (before ++ (s.written ++ rest)) (textRun before ++ s :: segs) left := by
    have hspanned := Cut.span hs hspan hsegs
    rw [hopener, List.append_assoc] at hspanned ⊢
    exact hspanned.behind hbefore
  cases h with
  | whole hsegs =>
    have hwhole : Segmented line _ _ := .whole (hcut hsegs)
    rw [located_textRun] at hwhole
    exact hwhole
  | @stuck segs left lead fault hsegs hstuck =>
    have hline : line + Text.newlines (written (textRun before ++ s :: segs) ++ lead) =
        line + Text.newlines before + Text.newlines s.written + Text.newlines (written segs ++ lead) := by
      simp [written_textRun]
      omega
    have hfault : Segmented line _ _ := .stuck (hcut hsegs) hstuck
    rw [hline] at hfault
    exact hfault

theorem Segmented.stuck_behind {line next : Nat} {before rest lead : List Char} {d : Delimiter}
    {fault : Fault} (hbefore : SpanFree (before ++ ['{']))
    (hstuck : Stuck (d.opener.toList ++ rest) lead fault)
    (hnext : next = line + Text.newlines before + Text.newlines lead) :
    Segmented line (before ++ (d.opener.toList ++ rest)) (.error ⟨next, fault⟩) := by
  have hfault : Segmented line _ _ := .stuck (Cut.behind hbefore (.nil _)) hstuck
  have hline : line + Text.newlines (written (textRun before ++ []) ++ lead) = next := by
    simp [hnext, written_textRun, Nat.add_assoc]
  rwa [hline] at hfault

theorem newlines_opener (d : Delimiter) : Text.newlines d.opener.toList = 0 := by
  cases d <;> rfl

theorem newlines_ofSpan (d : Delimiter) (body : List Char) :
    Text.newlines (Segment.ofSpan d body).written = Text.newlines body := by
  have hmark : Text.newlines [d.mark, '}'] = 0 := by cases d <;> rfl
  simp [written_ofSpan, newlines_opener, hmark]

theorem newlines_literal (body content closing : List Char) :
    Text.newlines (Segment.literal body content closing).written =
      Text.newlines body + Text.newlines content + Text.newlines closing := by
  simp [Segment.written, Text.newlines]
  omega

theorem isLiteralTag_iff {d : Delimiter} {body : List Char} :
    isLiteralTag d body = true ↔ d = .tag ∧ Text.trim body = "literal".toList := by
  simp only [isLiteralTag, Bool.and_eq_true, beq_iff_eq]

-- What stands between a beginning and an end of known lengths.
theorem take_drop_between {whole front middle back : List Char} (h : whole = front ++ (middle ++ back)) :
    (whole.drop front.length).take (whole.length - front.length - back.length) = middle := by
  have hcount : whole.length - front.length - back.length = middle.length := by
    simp only [h, List.length_append]
    omega
  rw [hcount, h, List.drop_left, List.take_left]

-- Every character of a source belongs to one segment, the segments are in order, and each of them
-- begins on the line it is placed on.
theorem segments_segmented (line : Nat) (cs : List Char) : Segmented line cs (segments line cs) := by
  fun_induction segments line cs with
  | case1 line cs hcut =>
    have hwhole : Cut (cs ++ []) (textRun cs ++ []) [] :=
      .textRun (by simpa using cutOpener_eq_none hcut) (.inl rfl) (.nil [])
    have hplaced := located_textRun line cs []
    simp only [located, List.append_nil] at hwhole hplaced
    exact hplaced ▸ .whole hwhole
  | case2 line cs before d rest hcut _ start hcloser =>
    obtain ⟨hsplit, hbefore⟩ := cutOpener_eq_some hcut
    have hopen : Stuck (d.opener.toList ++ rest.val) [] (.unclosedDelimiter d.opener) :=
      .delimiter fun body hbody => cutCloser_eq_none hcloser hbody
    have hstuck : Segmented line _ (.error ⟨start, _⟩) := .stuck_behind hbefore hopen rfl
    rw [← List.append_assoc, ← hsplit] at hstuck
    exact hstuck
  | case3 line cs before d rest hcut _ start body after hcloser _ next hliteral hend =>
    obtain ⟨hsplit, hbefore⟩ := cutOpener_eq_some hcut
    obtain ⟨hbody, hholds⟩ := cutCloser_eq_some hcloser
    obtain ⟨rfl, htrim⟩ := isLiteralTag_iff.mp hliteral
    have hopen := Stuck.literal hholds htrim (endFree_iff.mpr hend)
    have hspan : (Segment.tag body).written ++ after.val = Delimiter.tag.opener.toList ++ rest.val :=
      calc
        _ = Delimiter.tag.opener.toList ++ (body ++ '%' :: '}' :: after.val) := by
          simp [Segment.written, Delimiter.toList_opener, Delimiter.second]
        _ = _ := congrArg _ hbody.symm
    rw [hspan] at hopen
    have hline : next = line + Text.newlines before + Text.newlines (Segment.tag body).written :=
      congrArg (start + ·) (newlines_ofSpan .tag body).symm
    have hstuck := Segmented.stuck_behind hbefore hopen hline
    rw [← List.append_assoc, ← hsplit] at hstuck
    exact hstuck
  | case4 line cs before d rest hcut _ start body after hcloser _ next hliteral content last hend _ closing =>
    rename_i ih
    obtain ⟨hsplit, hbefore⟩ := cutOpener_eq_some hcut
    obtain ⟨hbody, hholds⟩ := cutCloser_eq_some hcloser
    obtain ⟨closed, hclosed, hcontent, hfree⟩ := cutWith_endLiteral_eq_some hend
    obtain ⟨rfl, htrim⟩ := isLiteralTag_iff.mp hliteral
    have hclosing : closing = closed := take_drop_between hcontent
    have hwhole : cs = before ++ ((Segment.literal body content closing).written ++ last.val) :=
      calc
        cs = before ++ ['{', '%'] ++ rest.val := hsplit
        _ = before ++ ['{', '%'] ++ (body ++ '%' :: '}' :: (content ++ (closed ++ last.val))) :=
          congrArg _ (hbody.trans (congrArg (fun cs => body ++ '%' :: '}' :: cs) hcontent))
        _ = _ := by simp [Segment.written, hclosing]
    have hformed : (Segment.literal body content closing).WellFormed :=
      ⟨⟨hholds, htrim⟩, hfree, hclosing ▸ hclosed⟩
    have hline : next + Text.newlines content + Text.newlines closing =
        line + Text.newlines before + Text.newlines (Segment.literal body content closing).written := by
      rw [newlines_literal]
      omega
    have hbehind := ih.behind hbefore hformed id hline
    rw [← hwhole] at hbehind
    exact hbehind
  | case5 line cs before d rest hcut _ start body after hcloser _ next hliteral =>
    rename_i ih
    obtain ⟨hsplit, hbefore⟩ := cutOpener_eq_some hcut
    obtain ⟨hbody, hholds⟩ := cutCloser_eq_some hcloser
    have hwhole : cs = before ++ ((Segment.ofSpan d body).written ++ after.val) :=
      calc
        cs = before ++ d.opener.toList ++ rest.val := hsplit
        _ = before ++ d.opener.toList ++ (body ++ d.mark :: '}' :: after.val) := congrArg _ hbody
        _ = _ := by simp [written_ofSpan]
    have hformed := wellFormed_ofSpan hholds (Bool.eq_false_iff.mpr hliteral)
    have hline : next = line + Text.newlines before + Text.newlines (Segment.ofSpan d body).written := by
      rw [newlines_ofSpan]
    have hbehind := ih.behind hbefore hformed (not_isText_ofSpan d body) hline
    rw [← hwhole] at hbehind
    exact hbehind

-- A text run reaches no further than to an opening delimiter.
theorem length_le_of_opener {content rest before : List Char} {d : Delimiter}
    (hfree : SpanFree (content ++ rest.take 1)) (hopener : before ++ d.opener.toList <+: content ++ rest) :
    content.length ≤ before.length := by
  by_contra hlength
  have hcontent : content ++ rest.take 1 <+: content ++ rest :=
    (List.prefix_append_right_inj content).mpr (List.take_prefix 1 rest)
  have hfits := hopener.length_le
  have hwithin : before ++ d.opener.toList <+: content ++ rest.take 1 := by
    refine List.prefix_of_prefix_length_le hopener hcontent ?_
    simp only [Delimiter.toList_opener, List.length_append, List.length_cons, List.length_nil,
      List.length_take] at hfits ⊢
    omega
  exact hfree d ((List.suffix_append before _).isInfix.trans hwithin.isInfix)

theorem not_prefix_opener {content rest : List Char} (hcontent : content ≠ [])
    (hfree : SpanFree (content ++ rest.take 1)) (d : Delimiter) : ¬d.opener.toList <+: content ++ rest := by
  intro hopener
  have hlength : content.length ≤ ([] : List Char).length := length_le_of_opener hfree hopener
  exact hcontent (List.length_eq_zero_iff.mp (Nat.le_zero.mp hlength))

theorem text_unique {content rest content' rest' : List Char}
    (hfree : SpanFree (content ++ rest.take 1)) (hfree' : SpanFree (content' ++ rest'.take 1))
    (hrest : rest = [] ∨ ∃ d : Delimiter, d.opener.toList <+: rest)
    (hrest' : rest' = [] ∨ ∃ d : Delimiter, d.opener.toList <+: rest')
    (h : content ++ rest = content' ++ rest') : content = content' ∧ rest = rest' := by
  have hle {content rest content' rest' : List Char} (hfree : SpanFree (content ++ rest.take 1))
      (hrest' : rest' = [] ∨ ∃ d : Delimiter, d.opener.toList <+: rest')
      (h : content ++ rest = content' ++ rest') : content.length ≤ content'.length := by
    rcases hrest' with rfl | ⟨d, hd⟩
    · have hlength := congrArg List.length h
      simp only [List.length_append, List.length_nil] at hlength
      omega
    · exact length_le_of_opener hfree (h ▸ (List.prefix_append_right_inj content').mpr hd)
  exact List.append_inj h (Nat.le_antisymm (hle hfree hrest' h) (hle hfree' hrest h.symm))

theorem opener_unique {d d' : Delimiter} {rest rest' : List Char}
    (h : d.opener.toList ++ rest = d'.opener.toList ++ rest') : d = d' ∧ rest = rest' := by
  rw [Delimiter.toList_opener, Delimiter.toList_opener] at h
  obtain ⟨hsecond, hrest⟩ := List.cons.inj (List.cons.inj h).2
  refine ⟨?_, hrest⟩
  cases d <;> cases d' <;> first | rfl | cases hsecond

theorem Delimiter.Holds.unique {d : Delimiter} {body body' rest rest' : List Char} (hbody : d.Holds body)
    (hbody' : d.Holds body') (h : body ++ d.mark :: '}' :: rest = body' ++ d.mark :: '}' :: rest') :
    body = body' ∧ rest = rest' := by
  obtain ⟨r, hr, hrest⟩ := cutCloser_of_eq hbody (rfl : body ++ d.mark :: '}' :: rest = _)
  obtain ⟨r', hr', hrest'⟩ := cutCloser_of_eq hbody' h
  rw [hr] at hr'
  obtain ⟨rfl, rfl⟩ := Prod.mk.inj (Option.some.inj hr')
  exact ⟨rfl, hrest.symm.trans hrest'⟩

theorem EndFree.unique {content content' closing closing' rest rest' : List Char} (hfree : EndFree content)
    (hfree' : EndFree content') (hclosing : IsEndLiteral closing) (hclosing' : IsEndLiteral closing')
    (h : content ++ (closing ++ rest) = content' ++ (closing' ++ rest')) :
    content = content' ∧ closing = closing' ∧ rest = rest' := by
  obtain ⟨r, hr, hrest⟩ := cutWith_endLiteral hfree hclosing (rfl : content ++ (closing ++ rest) = _)
  obtain ⟨r', hr', hrest'⟩ := cutWith_endLiteral hfree' hclosing' h
  rw [hr] at hr'
  obtain ⟨rfl, rfl⟩ := Prod.mk.inj (Option.some.inj hr')
  obtain rfl : rest = rest' := hrest.symm.trans hrest'
  exact ⟨rfl, List.append_cancel_right (List.append_cancel_left h), rfl⟩

-- What a span is read from: its delimiter and body, and for a literal section what is behind its tag.
theorem Segment.exists_body {s : Segment} (hs : s.WellFormed) (hspan : ¬s.IsText) (rest : List Char) :
    ∃ (d : Delimiter) (body tail : List Char), d.Holds body ∧
      s.written ++ rest = d.opener.toList ++ (body ++ d.mark :: '}' :: tail) ∧
      (s = .ofSpan d body ∧ isLiteralTag d body = false ∧ tail = rest ∨
        isLiteralTag d body = true ∧ ∃ content closing, s = .literal body content closing ∧
          EndFree content ∧ IsEndLiteral closing ∧ tail = content ++ (closing ++ rest)) := by
  have hplain (d : Delimiter) (body : List Char) :
      (Segment.ofSpan d body).written ++ rest = d.opener.toList ++ (body ++ d.mark :: '}' :: rest) := by
    simp [written_ofSpan]
  cases s with
  | text => exact absurd trivial hspan
  | echo body => exact ⟨.echo, body, rest, hs, hplain .echo body, .inl ⟨rfl, rfl, rfl⟩⟩
  | tag body =>
    have hliteral : isLiteralTag .tag body = false := by simpa [isLiteralTag] using hs.2
    exact ⟨.tag, body, rest, hs.1, hplain .tag body, .inl ⟨rfl, hliteral, rfl⟩⟩
  | comment body => exact ⟨.comment, body, rest, hs, hplain .comment body, .inl ⟨rfl, rfl, rfl⟩⟩
  | literal body content closing =>
    obtain ⟨⟨hbody, hliteral⟩, hfree, hclosing⟩ := hs
    refine ⟨.tag, body, content ++ (closing ++ rest), hbody, ?_,
      .inr ⟨by simp [isLiteralTag, hliteral], content, closing, rfl, hfree, hclosing, rfl⟩⟩
    simp [Segment.written, Delimiter.toList_opener, Delimiter.second, Delimiter.mark]

theorem span_unique {s s' : Segment} {rest rest' : List Char} (hs : s.WellFormed) (hs' : s'.WellFormed)
    (hspan : ¬s.IsText) (hspan' : ¬s'.IsText) (h : s.written ++ rest = s'.written ++ rest') :
    s = s' ∧ rest = rest' := by
  obtain ⟨d, body, tail, hbody, hwritten, hkind⟩ := Segment.exists_body hs hspan rest
  obtain ⟨d', body', tail', hbody', hwritten', hkind'⟩ := Segment.exists_body hs' hspan' rest'
  rw [hwritten, hwritten'] at h
  obtain ⟨rfl, h⟩ := opener_unique h
  obtain ⟨rfl, rfl⟩ := hbody.unique hbody' h
  rcases hkind with ⟨rfl, hliteral, rfl⟩ | ⟨hliteral, content, closing, rfl, hfree, hclosing, htail⟩
  · rcases hkind' with ⟨rfl, -, rfl⟩ | ⟨hliteral', -⟩
    · exact ⟨rfl, rfl⟩
    · rw [hliteral] at hliteral'
      cases hliteral'
  · rcases hkind' with ⟨-, hliteral', -⟩ | ⟨-, content', closing', rfl, hfree', hclosing', htail'⟩
    · rw [hliteral] at hliteral'
      cases hliteral'
    · obtain ⟨rfl, rfl, rfl⟩ := hfree.unique hfree' hclosing hclosing' (htail.symm.trans htail')
      exact ⟨rfl, rfl⟩

-- What is cut off first is the same in every way to cut.
theorem Cut.head_unique {cs left left' : List Char} {s s' : Segment} {segs segs' : List Segment}
    (h : Cut cs (s :: segs) left) (h' : Cut cs (s' :: segs') left') :
    s = s' ∧ ∃ rest, Cut rest segs left ∧ Cut rest segs' left' := by
  have hmixed {content rest rest' : List Char} {s : Segment} (hcontent : content ≠ [])
      (hfree : SpanFree (content ++ rest.take 1)) (hspan : ¬s.IsText)
      (h : content ++ rest = s.written ++ rest') : False := by
    obtain ⟨d, body, hopener⟩ := s.exists_opener hspan
    exact not_prefix_opener hcontent hfree d ⟨body ++ rest', by rw [h, hopener, List.append_assoc]⟩
  generalize hcs : cs = ds at h'
  cases h with
  | text hcontent hfree hrest hsegs =>
    cases h' with
    | text hcontent' hfree' hrest' hsegs' =>
      obtain ⟨rfl, rfl⟩ := text_unique hfree hfree' hrest hrest' hcs
      exact ⟨rfl, _, hsegs, hsegs'⟩
    | span hs' hspan' hsegs' => exact (hmixed hcontent hfree hspan' hcs).elim
  | span hs hspan hsegs =>
    cases h' with
    | text hcontent' hfree' hrest' hsegs' => exact (hmixed hcontent' hfree' hspan hcs.symm).elim
    | span hs' hspan' hsegs' =>
      obtain ⟨rfl, rfl⟩ := span_unique hs hs' hspan hspan' hcs
      exact ⟨rfl, _, hsegs, hsegs'⟩

-- Of two ways to cut a text, one only goes further than the other.
theorem Cut.comparable {cs left left' : List Char} {segs segs' : List Segment} (h : Cut cs segs left)
    (h' : Cut cs segs' left') :
    (∃ more, segs' = segs ++ more ∧ Cut left more left') ∨
      ∃ more, segs = segs' ++ more ∧ Cut left' more left := by
  induction segs generalizing cs segs' with
  | nil =>
    cases h
    exact .inl ⟨segs', rfl, h'⟩
  | cons s segs ih =>
    cases segs' with
    | nil =>
      cases h'
      exact .inr ⟨_, rfl, h⟩
    | cons s' segs' =>
      obtain ⟨rfl, rest, hsegs, hsegs'⟩ := h.head_unique h'
      rcases ih hsegs hsegs' with ⟨more, rfl, hmore⟩ | ⟨more, rfl, hmore⟩
      · exact .inl ⟨more, rfl, hmore⟩
      · exact .inr ⟨more, rfl, hmore⟩

theorem Cut.eq_nil {segs : List Segment} {left : List Char} (h : Cut [] segs left) : segs = [] := by
  cases segs with
  | nil => rfl
  | cons s segs =>
    have hwritten := h.written
    have hs := h.wellFormed s (by simp)
    cases s with
    | text content => simp [Segment.written, hs.1] at hwritten
    | echo | tag | comment | literal => simp [Segment.written] at hwritten

theorem Stuck.exists_opener {cs lead : List Char} {fault : Fault} (h : Stuck cs lead fault) :
    ∃ d : Delimiter, d.opener.toList <+: cs := by
  cases h with
  | @delimiter d rest hopen => exact ⟨d, List.prefix_append _ _⟩
  | literal => exact ⟨.tag, _, rfl⟩

theorem Stuck.not_span {s : Segment} {rest lead : List Char} {fault : Fault} (hs : s.WellFormed)
    (hspan : ¬s.IsText) : ¬Stuck (s.written ++ rest) lead fault := by
  intro hstuck
  obtain ⟨d, body, tail, hbody, hwritten, hkind⟩ := Segment.exists_body hs hspan rest
  generalize hcs : s.written ++ rest = cs at hstuck
  rw [hwritten] at hcs
  cases hstuck with
  | delimiter hopen =>
    obtain ⟨rfl, rfl⟩ := opener_unique hcs
    exact hopen body hbody ⟨tail, by simp⟩
  | @literal body' rest' hbody' hliteral hfree =>
    have hcs' : d.opener.toList ++ (body ++ d.mark :: '}' :: tail) =
        Delimiter.tag.opener.toList ++ (body' ++ Delimiter.tag.mark :: '}' :: rest') := by
      simpa [Segment.written, Delimiter.toList_opener, Delimiter.second, Delimiter.mark] using hcs
    obtain ⟨rfl, hsame⟩ := opener_unique hcs'
    obtain ⟨rfl, rfl⟩ := hbody.unique hbody' hsame
    rcases hkind with ⟨-, hplain, -⟩ | ⟨-, content, closing, -, -, hclosing, htail⟩
    · simp [isLiteralTag, hliteral] at hplain
    · exact hfree closing hclosing ⟨content, rest, by rw [htail, List.append_assoc]⟩

theorem Stuck.eq_nil {cs left lead : List Char} {segs : List Segment} {fault : Fault}
    (hstuck : Stuck cs lead fault) (h : Cut cs segs left) : segs = [] := by
  cases h with
  | nil => rfl
  | text hcontent hfree =>
    obtain ⟨d, hd⟩ := hstuck.exists_opener
    exact absurd hd (not_prefix_opener hcontent hfree d)
  | span hs hspan => exact absurd hstuck (Stuck.not_span hs hspan)

-- A source that is cut to its end has these segments.
theorem Cut.segments {cs : List Char} {segs : List Segment} (h : Cut cs segs []) (line : Nat) :
    segments line cs = .ok (located line segs) := by
  have hsegments := segments_segmented line cs
  generalize Markup.segments line cs = result at hsegments
  cases hsegments with
  | whole hcut =>
    rcases h.comparable hcut with ⟨more, rfl, hmore⟩ | ⟨more, rfl, hmore⟩
    · simp [hmore.eq_nil]
    · simp [hmore.eq_nil]
  | @stuck segs' left lead fault hcut hstuck =>
    exfalso
    have hleft : left = [] := by
      rcases h.comparable hcut with ⟨more, rfl, hmore⟩ | ⟨more, rfl, hmore⟩
      · obtain rfl := hmore.eq_nil
        simpa using hmore.written.symm
      · obtain rfl := hstuck.eq_nil hmore
        simpa using hmore.written
    obtain ⟨d, hd⟩ := hstuck.exists_opener
    have hopener := List.prefix_nil.mp (hleft ▸ hd)
    simp [Delimiter.toList_opener] at hopener

-- A span that is shown: an echo, a tag or a literal section.
def Segment.IsSpan : Segment → Prop
  | echo _ | tag _ | literal _ _ _ => True
  | text _ | comment _ => False

theorem Segment.IsSpan.not_isText {s : Segment} (h : s.IsSpan) : ¬s.IsText := by
  cases s with
  | text => exact h.elim
  | _ => exact id

-- The text that some placed segments stand for, each of them whole and in its place.
structure Accounts (placed : List Placed) (cs : List Char) : Prop where
  written : Markup.written (placed.map Placed.segment) = cs
  wellFormed : ∀ p ∈ placed, p.segment.WellFormed

theorem map_located (line : Nat) (segs : List Segment) : (located line segs).map Placed.segment = segs := by
  induction segs generalizing line with
  | nil => rfl
  | cons s segs ih => exact congrArg (s :: ·) (ih _)

theorem wellFormed_located {segs : List Segment} (h : ∀ s ∈ segs, s.WellFormed) (line : Nat) :
    ∀ p ∈ located line segs, p.segment.WellFormed :=
  fun p hp => h p.segment (map_located line segs ▸ List.mem_map_of_mem hp)

theorem segments_located {line : Nat} {cs : List Char} {placed : List Placed}
    (h : segments line cs = .ok placed) : ∃ segs, Cut cs segs [] ∧ placed = located line segs := by
  have hsegments := segments_segmented line cs
  rw [h] at hsegments
  cases hsegments with
  | whole hcut => exact ⟨_, hcut, rfl⟩

theorem segments_accounts {line : Nat} {cs : List Char} {placed : List Placed}
    (h : segments line cs = .ok placed) : Accounts placed cs := by
  obtain ⟨segs, hcut, rfl⟩ := segments_located h
  have hmap := map_located line segs
  exact ⟨by rw [hmap, hcut.written, List.append_nil], wellFormed_located hcut.wellFormed line⟩

theorem segments_written {segs : List Segment} (h : ∀ s ∈ segs, s.WellFormed ∧ s.IsSpan) (line : Nat) :
    ∃ placed, segments line (written segs) = .ok placed ∧ placed.map Placed.segment = segs := by
  have hcut : Cut (written segs) segs [] := by
    induction segs with
    | nil => exact .nil []
    | cons s segs ih =>
      obtain ⟨⟨hs, hspan⟩, hsegs⟩ := List.forall_mem_cons.mp h
      exact .span hs hspan.not_isText (ih hsegs)
  exact ⟨located line segs, hcut.segments line, map_located line segs⟩

end TemplateEngine.Markup
