import TemplateEngine.Markup.Echo
import TemplateEngine.Markup.Segment

-- Quotes in the spans of a template. Inside quotes neither the end of a span nor a bar counts; where
-- a text stands with respect to quotes is told character by character.
namespace TemplateEngine.Markup

-- Outside quotes, inside them, or behind a backslash inside them.
inductive Mode where
  | plain
  | quoted (quote : Char)
  | escaped (quote : Char)
deriving DecidableEq

namespace Mode

def next : Mode → Char → Mode
  | plain, c => if c = '\'' || c = '"' then quoted c else plain
  | quoted quote, c => if c = '\\' then escaped quote else if c = quote then plain else quoted quote
  | escaped quote, _ => quoted quote

def after (mode : Mode) (cs : List Char) : Mode := cs.foldl next mode

def ofQuote : Option Char → Mode
  | none => plain
  | some quote => quoted quote

theorem ofQuote_eq_plain_iff {quote : Option Char} : ofQuote quote = plain ↔ quote = none := by
  cases quote <;> simp [ofQuote]

@[simp] theorem after_nil (mode : Mode) : mode.after [] = mode := rfl

@[simp] theorem after_cons (mode : Mode) (c : Char) (cs : List Char) :
    mode.after (c :: cs) = (mode.next c).after cs := rfl

@[simp] theorem after_append (mode : Mode) (cs ds : List Char) :
    mode.after (cs ++ ds) = (mode.after cs).after ds :=
  List.foldl_append

theorem plain_next {c : Char} (hc : c ≠ '\'') (hc' : c ≠ '"') : plain.next c = plain := by
  simp [next, hc, hc']

-- A text without quotes stays outside them.
theorem plain_after {cs : List Char} (h : ∀ c ∈ cs, c ≠ '\'' ∧ c ≠ '"') : plain.after cs = plain := by
  induction cs with
  | nil => rfl
  | cons c cs ih =>
    rw [after_cons, plain_next (h c (by simp)).1 (h c (by simp)).2]
    exact ih fun d hd => h d (by simp [hd])

end Mode

-- Every quote that a text opens it closes again.
def Quoted (cs : List Char) : Prop := Mode.plain.after cs = .plain

instance (cs : List Char) : Decidable (Quoted cs) := inferInstanceAs (Decidable (_ = _))

-- No closing delimiter stands in a text outside quotes.
def Whole (mark : Char) (mode : Mode) (cs : List Char) : Prop :=
  ∀ before rest, cs = before ++ mark :: '}' :: rest → mode.after before ≠ .plain

@[simp] theorem whole_nil (mark : Char) (mode : Mode) : Whole mark mode [] := by
  intro before rest hsplit
  cases before <;> cases hsplit

theorem whole_cons {mark c : Char} {mode : Mode} {cs : List Char} :
    Whole mark mode (c :: cs) ↔
      Whole mark (mode.next c) cs ∧ ¬(mode = .plain ∧ c = mark ∧ cs.head? = some '}') := by
  constructor
  · intro h
    refine ⟨fun before rest hsplit => h (c :: before) rest (by rw [hsplit]; rfl), ?_⟩
    rintro ⟨hmode, rfl, hhead⟩
    obtain ⟨rest, rfl⟩ := List.head?_eq_some_iff.mp hhead
    exact h [] rest rfl hmode
  · rintro ⟨h, hopen⟩ before rest hsplit
    cases before with
    | nil =>
      intro hmode
      cases hsplit
      exact hopen ⟨hmode, rfl, rfl⟩
    | cons d before =>
      cases hsplit
      exact h before rest rfl

instance decideWhole (mark : Char) : ∀ mode cs, Decidable (Whole mark mode cs)
  | mode, [] => .isTrue (whole_nil mark mode)
  | mode, c :: cs =>
    have := decideWhole mark (mode.next c) cs
    decidable_of_iff _ whole_cons.symm

theorem whole_append {mark : Char} {mode : Mode} {cs ds : List Char} (h : Whole mark mode cs)
    (h' : Whole mark (mode.after cs) ds) (hjoin : cs.getLast? = some mark → ds.head? ≠ some '}') :
    Whole mark mode (cs ++ ds) := by
  induction cs generalizing mode with
  | nil => exact h'
  | cons c cs ih =>
    obtain ⟨hcs, hopen⟩ := whole_cons.mp h
    cases cs with
    | nil => exact whole_cons.mpr ⟨h', fun hclose => hjoin (congrArg some hclose.2.1) hclose.2.2⟩
    | cons d cs => exact whole_cons.mpr ⟨ih hcs h' hjoin, hopen⟩

-- The body of a span: its quotes are closed, and the first closing delimiter outside quotes is the
-- one behind it.
structure Closes (mark : Char) (mode : Mode) (body : List Char) : Prop where
  quoted : mode.after body = .plain
  first : Whole mark mode (body ++ [mark])

theorem closes_nil {mark : Char} {mode : Mode} : Closes mark mode [] ↔ mode = .plain :=
  ⟨Closes.quoted, fun h => ⟨h, whole_cons.mpr ⟨whole_nil _ _, by simp⟩⟩⟩

theorem closes_cons {mark c : Char} {mode : Mode} {body : List Char} :
    Closes mark mode (c :: body) ↔
      Closes mark (mode.next c) body ∧
        ¬(mode = .plain ∧ c = mark ∧ (body ++ [mark]).head? = some '}') := by
  constructor
  · intro h
    obtain ⟨hfirst, hopen⟩ := whole_cons.mp h.first
    exact ⟨⟨h.quoted, hfirst⟩, hopen⟩
  · rintro ⟨h, hopen⟩
    exact ⟨h.quoted, whole_cons.mpr ⟨h.first, hopen⟩⟩

-- The cut at the first closing delimiter outside quotes, character by character.
def cutPlain (mark : Char) : Mode → List Char → Option (List Char × List Char)
  | _, [] => none
  | mode, c :: cs =>
    if mode = .plain ∧ c = mark ∧ cs.head? = some '}' then some ([], cs.tail)
    else (cutPlain mark (mode.next c) cs).map fun (body, rest) => (c :: body, rest)

theorem cutPlain_eq_some_iff {mark : Char} {mode : Mode} {cs body rest : List Char} :
    cutPlain mark mode cs = some (body, rest) ↔
      cs = body ++ mark :: '}' :: rest ∧ Closes mark mode body := by
  induction cs generalizing mode body with
  | nil => simp [cutPlain]
  | cons c cs ih =>
    unfold cutPlain
    by_cases hclose : mode = .plain ∧ c = mark ∧ cs.head? = some '}'
    · rw [if_pos hclose]
      obtain ⟨rfl, rfl, hhead⟩ := hclose
      obtain ⟨tail, rfl⟩ := List.head?_eq_some_iff.mp hhead
      constructor
      · intro h
        cases h
        exact ⟨rfl, closes_nil.mpr rfl⟩
      · rintro ⟨hsplit, hcloses⟩
        cases body with
        | nil =>
          cases hsplit
          rfl
        | cons d body =>
          -- a longer body would hold the delimiter at its front
          simp only [List.cons_append, List.cons.injEq] at hsplit
          obtain ⟨rfl, hsplit⟩ := hsplit
          refine absurd ⟨rfl, rfl, ?_⟩ (closes_cons.mp hcloses).2
          cases body with
          | nil => cases hsplit; rfl
          | cons e body => cases hsplit; rfl
    · rw [if_neg hclose]
      cases body with
      | nil =>
        simp only [Option.map_eq_some_iff, Prod.mk.injEq, reduceCtorEq, false_and, and_false, exists_false,
          List.nil_append, false_iff, not_and, closes_nil]
        intro hsplit hmode
        cases hsplit
        exact hclose ⟨hmode, rfl, rfl⟩
      | cons d body =>
        have hmap : (cutPlain mark (mode.next c) cs).map (fun (body, rest) => (c :: body, rest)) =
            some (d :: body, rest) ↔ c = d ∧ cutPlain mark (mode.next c) cs = some (body, rest) := by
          rw [Option.map_eq_some_iff]
          constructor
          · rintro ⟨⟨b, r⟩, h, he⟩
            cases he
            exact ⟨rfl, h⟩
          · rintro ⟨rfl, h⟩
            exact ⟨_, h, rfl⟩
        rw [hmap, ih, closes_cons, List.cons_append, List.cons.injEq]
        constructor
        · rintro ⟨rfl, rfl, hcloses⟩
          refine ⟨⟨rfl, rfl⟩, hcloses, ?_⟩
          rintro ⟨hmode, rfl, hhead⟩
          refine hclose ⟨hmode, rfl, ?_⟩
          cases body <;> exact hhead
        · rintro ⟨⟨rfl, rfl⟩, hcloses, -⟩
          exact ⟨rfl, rfl, hcloses⟩

theorem cutPlain_cons {mark c : Char} {mode : Mode} {cs : List Char}
    (h : ¬(mode = .plain ∧ c = mark ∧ cs.head? = some '}')) :
    cutPlain mark mode (c :: cs) =
      (cutPlain mark (mode.next c) cs).map fun (body, rest) => (c :: body, rest) := by
  rw [cutPlain, if_neg h]

theorem cutUnquoted_eq {mark : Char} (hmark : mark ≠ '\'' ∧ mark ≠ '"') (quote : Option Char)
    (cs : List Char) :
    (cutUnquoted mark quote cs).map (fun (body, rest) => (body, rest.val)) =
      cutPlain mark (.ofQuote quote) cs := by
  fun_induction cutUnquoted mark quote cs with
  | case1 quote => rfl
  | case2 quote c => simp [cutPlain]
  | case3 d rest q ih =>
    rw [cutPlain_cons (by simp [Mode.ofQuote]), cutPlain_cons (by simp [Mode.ofQuote, Mode.next])]
    simp only [Mode.ofQuote, Mode.next, if_true] at ih ⊢
    rw [← ih]
    simp [Option.map_map, Function.comp_def]
  | case4 c d rest q hc ih =>
    have hnext : (Mode.ofQuote (some q)).next c = .ofQuote (if c = q then none else some q) := by
      simp only [Mode.ofQuote, Mode.next, if_neg hc]
      split <;> rfl
    rw [cutPlain_cons (by simp [Mode.ofQuote]), hnext, ← ih]
    simp [Option.map_map, Function.comp_def]
  | case5 c d rest hc ih =>
    simp only [Bool.or_eq_true, decide_eq_true_eq] at hc
    have hopen : ¬(Mode.ofQuote none = .plain ∧ c = mark ∧ (d :: rest).head? = some '}') := by
      rintro ⟨-, rfl, -⟩
      exact hc.elim hmark.1 hmark.2
    have hnext : (Mode.ofQuote none).next c = .ofQuote (some c) := by simp [Mode.ofQuote, Mode.next, hc]
    rw [cutPlain_cons hopen, hnext, ← ih]
    simp [Option.map_map, Function.comp_def]
  | case6 c d rest hc hclose =>
    simp only [Bool.and_eq_true, decide_eq_true_eq] at hclose
    obtain ⟨rfl, rfl⟩ := hclose
    simp [cutPlain, Mode.ofQuote]
  | case7 c d rest hc hclose ih =>
    simp only [Bool.or_eq_true, Bool.and_eq_true, decide_eq_true_eq, not_or, not_and] at hc hclose
    have hopen : ¬(Mode.ofQuote none = .plain ∧ c = mark ∧ (d :: rest).head? = some '}') := by
      rintro ⟨-, hc', hd⟩
      exact hclose hc' (Option.some.inj hd)
    have hnext : (Mode.ofQuote none).next c = .ofQuote none := Mode.plain_next hc.1 hc.2
    rw [cutPlain_cons hopen, hnext, ← ih]
    simp [Option.map_map, Function.comp_def]

theorem cutUnquoted_eq_some_iff {mark : Char} (hmark : mark ≠ '\'' ∧ mark ≠ '"')
    {cs body rest : List Char} :
    (cutUnquoted mark none cs).map (fun (body, rest) => (body, rest.val)) = some (body, rest) ↔
      cs = body ++ mark :: '}' :: rest ∧ Closes mark .plain body := by
  rw [cutUnquoted_eq hmark]
  exact cutPlain_eq_some_iff

-- Whether the bars outside quotes come in pairs.
def barsPaired : Mode → List Char → Bool
  | _, [] => true
  | .plain, '|' :: '|' :: cs => barsPaired .plain cs
  | .plain, '|' :: _ => false
  | mode, c :: cs => barsPaired (mode.next c) cs

-- The pieces between the single bars outside quotes, character by character.
def splitPlain : Mode → List Char → List (List Char)
  | _, [] => [[]]
  | .plain, '|' :: '|' :: cs => consPiece '|' (consPiece '|' (splitPlain .plain cs))
  | .plain, '|' :: cs => [] :: splitPlain .plain cs
  | mode, c :: cs => consPiece c (splitPlain (mode.next c) cs)

theorem splitPlain_cons {mode : Mode} {c : Char} (h : mode = .plain → c ≠ '|') (cs : List Char) :
    splitPlain mode (c :: cs) = consPiece c (splitPlain (mode.next c) cs) := by
  rw [splitPlain]
  · exact fun _ hmode hc _ => h hmode hc
  · exact h

theorem splitPlain_bar {cs : List Char} (h : cs.head? ≠ some '|') :
    splitPlain .plain ('|' :: cs) = [] :: splitPlain .plain cs := by
  rw [splitPlain]
  rintro rest rfl
  exact h rfl

theorem splitPlain_of_ne_plain {mode : Mode} (h : mode ≠ .plain) (c : Char) (cs : List Char) :
    splitPlain mode (c :: cs) = consPiece c (splitPlain (mode.next c) cs) :=
  splitPlain_cons (fun hmode => absurd hmode h) cs

theorem splitBars_eq (quote : Option Char) (cs : List Char) :
    splitBars quote cs = splitPlain (.ofQuote quote) cs := by
  fun_induction splitBars quote cs with
  | case1 quote => rfl
  | case2 quote c hc =>
    simp only [Bool.and_eq_true, Option.isNone_iff_eq_none, decide_eq_true_eq] at hc
    obtain ⟨rfl, rfl⟩ := hc
    rfl
  | case3 quote c hc =>
    simp only [Bool.and_eq_true, Option.isNone_iff_eq_none, decide_eq_true_eq, not_and] at hc
    rw [splitPlain_cons]
    · rfl
    · exact fun hmode => hc (Mode.ofQuote_eq_plain_iff.mp hmode)
  | case4 d rest q ih =>
    rw [Mode.ofQuote, splitPlain_of_ne_plain (by simp), Mode.next, if_pos rfl,
      splitPlain_of_ne_plain (by simp), ih]
    rfl
  | case5 c d rest q hc ih =>
    have hnext : (Mode.quoted q).next c = .ofQuote (if c = q then none else some q) := by
      simp only [Mode.next, if_neg hc]
      split <;> rfl
    rw [Mode.ofQuote, splitPlain_of_ne_plain (by simp), hnext, ih]
  | case6 c d rest hc ih =>
    simp only [Bool.or_eq_true, decide_eq_true_eq] at hc
    have hbar : c ≠ '|' := by
      rintro rfl
      exact hc.elim (by decide) (by decide)
    have hnext : Mode.plain.next c = .ofQuote (some c) := by simp [Mode.ofQuote, Mode.next, hc]
    rw [Mode.ofQuote, splitPlain_cons fun _ => hbar, hnext, ih]
  | case7 rest hc ih =>
    rw [ih]
    rfl
  | case8 d rest hd hc ih =>
    have hhead : (d :: rest).head? ≠ some '|' := fun h => hd (Option.some.inj h)
    rw [ih]
    exact (splitPlain_bar hhead).symm
  | case9 c d rest hc hbar ih =>
    simp only [Bool.or_eq_true, decide_eq_true_eq, not_or] at hc
    rw [Mode.ofQuote, splitPlain_cons fun _ => hbar, Mode.plain_next hc.1 hc.2, ih]
    rfl

-- A piece whose own bars come in pairs ends at the next single bar.
theorem splitPlain_append {mode : Mode} {piece rest : List Char} (h : barsPaired mode piece = true)
    (hmode : mode.after piece = .plain) (hrest : rest.head? ≠ some '|') :
    splitPlain mode (piece ++ '|' :: rest) = piece :: splitPlain .plain rest := by
  fun_induction barsPaired mode piece with
  | case1 mode =>
    obtain rfl : mode = .plain := hmode
    exact splitPlain_bar hrest
  | case2 cs ih =>
    have hcs := ih h hmode
    rw [List.cons_append, List.cons_append, splitPlain, hcs]
    rfl
  | case3 => cases h
  | case4 mode c cs _ hbar ih =>
    rw [List.cons_append, splitPlain_cons hbar, ih h hmode]
    rfl

theorem splitPlain_paired {mode : Mode} {piece : List Char} (h : barsPaired mode piece = true) :
    splitPlain mode piece = [piece] := by
  fun_induction barsPaired mode piece with
  | case1 mode => rfl
  | case2 cs ih =>
    rw [splitPlain, ih h]
    rfl
  | case3 => cases h
  | case4 mode c cs _ hbar ih =>
    rw [splitPlain_cons hbar, ih h]
    rfl

theorem barsPaired_append {mode : Mode} {cs : List Char} (h : barsPaired mode cs = true)
    (ds : List Char) : barsPaired mode (cs ++ ds) = barsPaired (mode.after cs) ds := by
  fun_induction barsPaired mode cs with
  | case1 mode => rfl
  | case2 cs ih => exact ih h
  | case3 => cases h
  | case4 mode c cs _ hbar ih =>
    rw [List.cons_append, barsPaired]
    · exact ih h
    · exact fun _ hmode hc _ => hbar hmode hc
    · exact hbar

-- The pieces of a text that closes its quotes: put together with bars they are the text, each of
-- them closes its quotes, and none of them holds a single bar or makes a pair of the bar before it.
structure Splits (mode : Mode) (cs piece : List Char) (pieces : List (List Char)) : Prop where
  joined : ['|'].intercalate (piece :: pieces) = cs
  quoted : mode.after piece = .plain ∧ ∀ other ∈ pieces, Quoted other
  paired : barsPaired mode piece = true ∧ ∀ other ∈ pieces, barsPaired .plain other = true
  apart : ∀ other ∈ pieces, other.head? ≠ some '|'

theorem intercalate_cons (c : Char) (piece : List Char) (pieces : List (List Char)) :
    ['|'].intercalate ((c :: piece) :: pieces) = c :: ['|'].intercalate (piece :: pieces) := by
  cases pieces <;> rfl

theorem intercalate_cons_cons (piece other : List Char) (pieces : List (List Char)) :
    ['|'].intercalate (piece :: other :: pieces) = piece ++ '|' :: ['|'].intercalate (other :: pieces) := by
  simp [List.intercalate]

theorem head?_intercalate {piece : List Char} (h : piece ≠ []) (pieces : List (List Char)) :
    (['|'].intercalate (piece :: pieces)).head? = piece.head? := by
  cases piece with
  | nil => exact absurd rfl h
  | cons c piece => rw [intercalate_cons, List.head?_cons, List.head?_cons]

theorem Splits.cons {mode : Mode} {c : Char} {cs piece : List Char} {pieces : List (List Char)}
    (h : Splits (mode.next c) cs piece pieces)
    (hpaired : barsPaired mode (c :: piece) = barsPaired (mode.next c) piece) :
    Splits mode (c :: cs) (c :: piece) pieces :=
  ⟨by rw [intercalate_cons, h.joined], h.quoted, ⟨hpaired.trans h.paired.1, h.paired.2⟩, h.apart⟩

theorem splitPlain_splits {mode : Mode} {cs : List Char} (h : mode.after cs = .plain) :
    ∃ piece pieces, splitPlain mode cs = piece :: pieces ∧ Splits mode cs piece pieces := by
  fun_induction splitPlain mode cs with
  | case1 mode => exact ⟨[], [], rfl, rfl, ⟨h, by simp⟩, ⟨by simp [barsPaired], by simp⟩, by simp⟩
  | case2 cs ih =>
    obtain ⟨piece, pieces, hs, hsplits⟩ := ih h
    refine ⟨'|' :: '|' :: piece, pieces, by rw [hs]; rfl, ?_, hsplits.quoted, ?_, hsplits.apart⟩
    · rw [intercalate_cons, intercalate_cons, hsplits.joined]
    · exact ⟨by rw [barsPaired]; exact hsplits.paired.1, hsplits.paired.2⟩
  | case3 cs hcs ih =>
    obtain ⟨piece, pieces, hs, hsplits⟩ := ih h
    refine ⟨[], piece :: pieces, by rw [hs], ?_, ⟨rfl, ?_⟩, ⟨by simp [barsPaired], ?_⟩, ?_⟩
    · rw [intercalate_cons_cons, hsplits.joined]
      rfl
    · exact List.forall_mem_cons.mpr hsplits.quoted
    · exact List.forall_mem_cons.mpr hsplits.paired
    · refine List.forall_mem_cons.mpr ⟨fun hhead => ?_, hsplits.apart⟩
      obtain ⟨rest, rfl⟩ := List.head?_eq_some_iff.mp hhead
      exact hcs _ (by rw [← hsplits.joined, intercalate_cons])
  | case4 mode c cs hpair hbar ih =>
    obtain ⟨piece, pieces, hs, hsplits⟩ := ih h
    refine ⟨c :: piece, pieces, by rw [hs]; rfl, hsplits.cons ?_⟩
    rw [barsPaired]
    · exact fun _ hmode hc _ => hbar hmode hc
    · exact hbar

-- Pieces that are not empty are found again.
theorem Splits.splitPlain {mode : Mode} {cs piece : List Char} {pieces : List (List Char)}
    (h : Splits mode cs piece pieces) (hpieces : ∀ other ∈ pieces, other ≠ []) :
    splitPlain mode cs = piece :: pieces := by
  induction pieces generalizing mode cs piece with
  | nil =>
    obtain rfl : piece = cs := by simpa using h.joined
    exact splitPlain_paired h.paired.1
  | cons other pieces ih =>
    rw [List.forall_mem_cons] at hpieces
    have hother : Splits .plain (['|'].intercalate (other :: pieces)) other pieces :=
      ⟨rfl, List.forall_mem_cons.mp h.quoted.2, List.forall_mem_cons.mp h.paired.2,
        (List.forall_mem_cons.mp h.apart).2⟩
    have hhead : (['|'].intercalate (other :: pieces)).head? ≠ some '|' := by
      rw [head?_intercalate hpieces.1]
      exact (List.forall_mem_cons.mp h.apart).1
    rw [← h.joined, intercalate_cons_cons, splitPlain_append h.paired.1 h.quoted.1 hhead,
      ih hother hpieces.2]

end TemplateEngine.Markup
