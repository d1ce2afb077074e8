import TemplateEngine.Proofs.Expr.Strings
import TemplateEngine.Proofs.Markup.Walk
import TemplateEngine.Render.LoopHeader

-- The quotes of a span are closed, and so are those of every expression that is cut out of it: by its
-- bars, by the keyword in front of it, by the words of a loop header, and by trimming.
namespace TemplateEngine.Markup

-- A text that neither opens nor closes nor hides a quote.
def Neutral (cs : List Char) : Prop := ∀ c ∈ cs, c ≠ '\'' ∧ c ≠ '"' ∧ c ≠ '\\'

theorem Neutral.append {cs ds : List Char} (h : Neutral cs) (h' : Neutral ds) : Neutral (cs ++ ds) :=
  List.forall_mem_append.mpr ⟨h, h'⟩

instance (cs : List Char) : Decidable (Neutral cs) :=
  List.decidableBAll (fun c => c ≠ '\'' ∧ c ≠ '"' ∧ c ≠ '\\') cs

theorem neutral_blank {cs : List Char} (h : Text.Blank cs) : Neutral cs := by
  intro c hc
  have hblank := h c hc
  refine ⟨?_, ?_, ?_⟩ <;> rintro rfl <;> exact absurd hblank (by decide)

theorem neutral_word {word : String} (h : Word word) : Neutral word.toList := by
  intro c hc
  have hsmall := List.all_eq_true.mp h.small c hc
  refine ⟨?_, ?_, ?_⟩ <;> rintro rfl <;> exact absurd hsmall (by decide)

theorem neutral_name {cs : List Char} (h : Text.isName cs = true) : Neutral cs := by
  intro c hc
  have hletter := Text.forall_mem_of_isName h c hc
  refine ⟨?_, ?_, ?_⟩ <;> rintro rfl <;> exact absurd hletter (by decide)

namespace Mode

-- Only the two quotes are ever open.
def Proper : Mode → Prop
  | plain => True
  | quoted quote | escaped quote => quote = '\'' ∨ quote = '"'

theorem Proper.next {mode : Mode} (h : mode.Proper) (c : Char) : (mode.next c).Proper := by
  cases mode with
  | plain =>
    by_cases hc : c = '\'' ∨ c = '"'
    · have hnext : plain.next c = quoted c := by simp [Mode.next, hc]
      rw [hnext]
      exact hc
    · rw [plain_next (fun h => hc (.inl h)) (fun h => hc (.inr h))]
      trivial
  | quoted quote =>
    simp only [Mode.next]
    split
    · exact h
    · split
      · trivial
      · exact h
  | escaped quote => exact h

theorem Proper.after {mode : Mode} (h : mode.Proper) (cs : List Char) : (mode.after cs).Proper := by
  induction cs generalizing mode with
  | nil => exact h
  | cons c cs ih => exact ih (h.next c)

-- What is open before a neutral text is open behind it.
theorem Proper.eq_plain {mode : Mode} (h : mode.Proper) {cs : List Char} (hcs : Neutral cs)
    (hafter : mode.after cs = plain) : mode = plain := by
  induction cs generalizing mode with
  | nil => exact hafter
  | cons c cs ih =>
    obtain ⟨⟨hsingle, hdouble, hslash⟩, hcs⟩ := List.forall_mem_cons.mp hcs
    have hnext := ih (h.next c) hcs hafter
    cases mode with
    | plain => rfl
    | quoted quote =>
      have hquote : c ≠ quote := by
        rcases h with rfl | rfl
        · exact hsingle
        · exact hdouble
      simp [Mode.next, hslash, hquote] at hnext
    | escaped quote => cases hnext

end Mode

-- Neutral texts can be cut off at both ends.
theorem Quoted.between {front cs back : List Char} (h : Quoted (front ++ cs ++ back))
    (hfront : Neutral front) (hback : Neutral back) : Quoted cs := by
  unfold Quoted at h ⊢
  rw [Mode.after_append, Mode.after_append,
    Mode.plain_after fun c hc => ⟨(hfront c hc).1, (hfront c hc).2.1⟩] at h
  have hplain : Mode.plain.Proper := trivial
  exact (hplain.after cs).eq_plain hback h

theorem Quoted.trim {cs : List Char} (h : Quoted cs) : Quoted (Text.trim cs) := by
  obtain ⟨front, back, hfront, hback, hsplit⟩ := Text.exists_trim cs
  rw [hsplit] at h
  exact h.between (neutral_blank hfront) (neutral_blank hback)

theorem Words.quoted {body argument : List Char} {keyword : String} (h : Words body keyword argument)
    (hkeyword : Word keyword) (hbody : Quoted body) : Quoted argument := by
  obtain ⟨front, gap, back, hfront, hgap, hback, rfl, -⟩ := h
  exact hbody.between (((neutral_blank hfront).append (neutral_word hkeyword)).append (neutral_blank hgap))
    (neutral_blank hback)

-- The texts of directives that a run reads, whole or in parts.
def Directive.source? : Directive → Option String
  | openIf text | elseIf text | openLoop _ text => some text
  | _ => none

theorem Directive.Spelled.quoted {body : List Char} {d : Directive} (h : d.Spelled body)
    (hbody : Quoted body) {text : String} (htext : d.source? = some text) : Quoted text.toList := by
  rcases h with ⟨argument, hwords, htakes⟩ | hvariant
  · have hargument := hwords.quoted d.keyword_word hbody
    cases d with
    | openIf _ | elseIf _ | openLoop _ _ =>
      cases htext
      rwa [htakes.1] at hargument
    | _ => cases htext
  · cases d with
    | elseIf condition =>
      cases htext
      obtain ⟨-, hwords | ⟨rest, hwords, htrim⟩⟩ := hvariant
      · exact hwords.quoted (by decide) hbody
      · rw [← htrim]
        have hargument := hwords.quoted (by decide) hbody
        rw [← List.append_nil (_ ++ rest)] at hargument
        exact (hargument.between (by decide) (by decide)).trim
    | _ => exact hvariant.elim

theorem EchoSpelled.quoted {body : List Char} {expr : String} {filters : List String}
    (h : EchoSpelled body expr filters) : Quoted expr.toList := by
  obtain ⟨piece, pieces, hsplits, hparts, -⟩ := h
  rw [← (List.cons.inj hparts).1]
  exact Quoted.trim hsplits.quoted.1

section Headers

open Render

theorem loopVariable_neutral {header name : String} {raw : List Char}
    (h : loopVariable header raw = .ok name) : Neutral raw := by
  obtain ⟨front, back, hfront, hback, hsplit⟩ := Text.exists_trim raw
  have hshown : Neutral (Text.trim raw) := by
    unfold loopVariable at h
    dsimp only at h
    split at h
    · next rest hrest =>
      split at h
      · next hname =>
        rw [hrest]
        exact List.forall_mem_cons.mpr ⟨by decide, neutral_name hname⟩
      · cases h
    · split at h
      · next hname => exact neutral_name hname
      · cases h
  rw [hsplit]
  exact ((neutral_blank hfront).append hshown).append (neutral_blank hback)

theorem headerSides_quoted {kind : LoopKind} {header iterable names : List Char}
    (h : headerSides kind header = some (iterable, names)) (hnames : Neutral names)
    (hheader : Quoted header) : Quoted iterable := by
  cases kind with
  | foreach =>
    have hsplit := Text.cutLast_eq_some h
    have hback : Neutral (" as ".toList ++ names) := Neutral.append (by decide) hnames
    rw [hsplit, List.append_assoc, ← List.nil_append (iterable ++ _), ← List.append_assoc] at hheader
    exact hheader.between (by decide) hback
  | forIn =>
    obtain ⟨⟨front, back⟩, hcut, hswap⟩ := Option.map_eq_some_iff.mp h
    obtain ⟨rfl, rfl⟩ := Prod.mk.inj hswap
    have hfront : Neutral (front ++ " in ".toList) := hnames.append (by decide)
    rw [Text.cut_eq_some hcut, ← List.append_nil (_ ++ back)] at hheader
    exact hheader.between hfront (by decide)

theorem loopHeader_quoted {kind : LoopKind} {header : String} {parsed : LoopHeader}
    (h : LoopHeader.read kind header = .ok parsed) (hheader : Quoted header.toList) :
    Quoted parsed.iterable.toList := by
  have hfinish : ∀ (iterable : List Char) (named : Option String × String),
      (if (Text.trim iterable).isEmpty = true then
        throw (malformed header "an iterable expression")
      else pure (⟨String.ofList (Text.trim iterable), named.1, named.2⟩ : LoopHeader) :
        Except Render.Fault LoopHeader) = .ok parsed → Quoted iterable → Quoted parsed.iterable.toList := by
    intro iterable named hparsed hiterable
    split at hparsed
    · cases hparsed
    · cases hparsed
      rw [String.toList_ofList]
      exact hiterable.trim
  unfold LoopHeader.read at h
  split at h
  · cases h
  · next iterable names hsides =>
    split at h
    · next key value hcut =>
      obtain ⟨k, hkey, h⟩ := bind_eq_ok h
      obtain ⟨v, hvalue, h⟩ := bind_eq_ok h
      obtain ⟨named, -, h⟩ := bind_eq_ok h
      refine hfinish iterable named h (headerSides_quoted hsides ?_ hheader)
      rw [Text.cut_eq_some hcut]
      exact ((loopVariable_neutral hkey).append (by cases kind <;> decide)).append
        (loopVariable_neutral hvalue)
    · obtain ⟨v, hvalue, h⟩ := bind_eq_ok h
      obtain ⟨named, -, h⟩ := bind_eq_ok h
      exact hfinish iterable named h (headerSides_quoted hsides (loopVariable_neutral hvalue) hheader)

end Headers

-- The text of a piece that a run reads as an expression: what an echo shows, a condition, what a loop
-- goes through.
def Piece.expression? : Piece → Option String
  | .echo expr _ _ => some expr
  | .directive (.openIf condition) | .directive (.elseIf condition) => some condition
  | .directive (.openLoop kind header) =>
    match Render.LoopHeader.read kind header with
    | .ok parsed => some parsed.iterable
    | .error _ => none
  | _ => none

def expressions (nodes : List Node) : List String := (walkAll nodes).filterMap Piece.expression?

theorem Segment.Shows.quoted {s : Segment} {piece : Piece} (h : s.Shows piece) (hs : s.WellFormed)
    {text : String} (htext : piece.expression? = some text) : Quoted text.toList := by
  cases s with
  | text _ | literal _ _ _ =>
    cases h
    cases htext
  | comment _ => exact h.elim
  | echo body =>
    obtain ⟨expr, filters, rfl, hspelled⟩ := h
    cases htext
    exact hspelled.quoted
  | tag body =>
    obtain ⟨d, rfl, hspelled⟩ := h
    have hbody : Quoted body := hs.1.quoted
    cases d with
    | openIf condition | elseIf condition =>
      cases htext
      exact hspelled.quoted hbody rfl
    | openLoop kind header =>
      simp only [Piece.expression?] at htext
      split at htext
      · next parsed hparsed =>
        cases htext
        exact loopHeader_quoted hparsed (hspelled.quoted hbody rfl)
      · cases htext
    | _ => cases htext

theorem quoted_of_shows {segs : List Segment} {pieces : List Piece}
    (h : List.Forall₂ Segment.Shows segs pieces) (hsegs : ∀ s ∈ segs, s.WellFormed) {piece : Piece}
    (hpiece : piece ∈ pieces) {text : String} (htext : piece.expression? = some text) :
    Quoted text.toList := by
  induction h with
  | nil => cases hpiece
  | cons hshows _ ih =>
    obtain ⟨hs, hsegs⟩ := List.forall_mem_cons.mp hsegs
    rcases List.mem_cons.mp hpiece with rfl | hpiece
    · exact hshows.quoted hs htext
    · exact ih hsegs hpiece

-- The scanner of spans, the one of bars and the reader of expressions agree on what a quote is: no
-- expression that was cut out of a template ends within quotes.
theorem expressions_quoted {source : List Char} {nodes : List Node} (h : read source = .ok nodes)
    {text : String} (htext : text ∈ expressions nodes) (shown : String) :
    Quoted text.toList ∧ Expr.read text ≠ .error (.unterminatedString shown) := by
  obtain ⟨placed, hplaced, hbuild⟩ := bind_eq_ok h
  obtain ⟨b, hrun, hfinish⟩ := bind_eq_ok hbuild
  have hformed := (segments_accounts hplaced).wellFormed
  obtain ⟨pieces, hwalk, hshows⟩ := Builder.foldlM_take_shows hformed hrun
  obtain rfl : walkAll nodes = pieces := (Builder.finish_walk hfinish).symm.trans hwalk
  obtain ⟨piece, hpiece, hexpr⟩ := List.mem_filterMap.mp htext
  have hquoted : Quoted text.toList := by
    refine quoted_of_shows hshows (fun s hs => ?_) hpiece hexpr
    obtain ⟨p, hp, rfl⟩ := List.mem_map.mp (List.mem_of_mem_filter hs)
    exact hformed p hp
  exact ⟨hquoted, Expr.read_of_quoted hquoted shown⟩

-- Quotes that hide the end of a span, a bar, a quote and the words of a loop header.
def quotingPage : List Char :=
  ("\x7b\x7b '\x7d\x7d | \\' é' | upper \x7d\x7d" ++ "\x7b% if a == \"%\x7d\" %\x7d" ++
    "\x7b% else if '\\\\' == b %\x7d" ++ "\x7b% endif %\x7d" ++
    "\x7b% foreach m[' as '] as $k => $v %\x7d" ++ "\x7b% endforeach %\x7d" ++
    "\x7b% for v in ' in ' %\x7d" ++ "\x7b% endfor %\x7d").toList

def quotingTree : List Node :=
  [.echo "'\x7d\x7d | \\' é'" ["upper"] true,
    .choice [⟨"a == \"%\x7d\"", []⟩, ⟨"'\\\\' == b", []⟩] none,
    .loop .foreach "m[' as '] as $k => $v" [], .loop .forIn "v in ' in '" []]

set_option maxRecDepth 4000 in
theorem expressions_quoted_page :
    read quotingPage = .ok quotingTree ∧
      expressions quotingTree =
        ["'\x7d\x7d | \\' é'", "a == \"%\x7d\"", "'\\\\' == b", "m[' as ']", "' in '"] ∧
      ∀ text ∈ expressions quotingTree, ∀ shown,
        Quoted text.toList ∧ Expr.read text ≠ .error (.unterminatedString shown) := by
  have hread : read quotingPage = .ok quotingTree := by with_unfolding_all rfl
  exact ⟨hread, by with_unfolding_all rfl, fun text htext => expressions_quoted hread htext⟩

end TemplateEngine.Markup
