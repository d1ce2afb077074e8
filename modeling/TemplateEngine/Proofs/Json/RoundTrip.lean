import TemplateEngine.Json.Reader
import TemplateEngine.Json.Writer
import TemplateEngine.Proofs.Decimal.Digits

-- Written documents are read back. The compact and the indented text are one layout with different
-- blanks in it, and the reader does not care for blanks.
namespace TemplateEngine.Json

-- A reader gives a result and leaves a tail.
def Yields {α : Type} {P : List Char → Prop} (x : Option (α × { rest : List Char // P rest })) (a : α)
    (tail : List Char) : Prop :=
  ∃ rest, x = some (a, rest) ∧ rest.val = tail

def Blanks (ws : List Char) : Prop := ∀ c ∈ ws, isSpace c = true

theorem isSpace_digit {c : Char} (hc : c.isDigit = true) : isSpace c = false := by
  apply Bool.eq_false_iff.mpr
  intro hspace
  simp only [isSpace, Bool.or_eq_true, beq_iff_eq] at hspace
  rcases hspace with ((rfl | rfl) | rfl) | rfl <;> exact absurd hc (by decide)

theorem next_solid {c : Char} (hc : isSpace c = false) (tail : List Char) :
    Yields (next (c :: tail)) c tail :=
  ⟨Shorter.tail, by simp [next, hc], rfl⟩

theorem next_blanks {ws : List Char} (hws : Blanks ws) {c : Char} (hc : isSpace c = false)
    (tail : List Char) : Yields (next (ws ++ c :: tail)) c tail := by
  induction ws with
  | nil => exact next_solid hc tail
  | cons w ws ih =>
    obtain ⟨rest, hrest, htail⟩ := ih fun d hd => hws d (by simp [hd])
    refine ⟨Shorter.cons rest, ?_, htail⟩
    simp [next, hws w (by simp), hrest]

theorem hexValue?_hexDigit : ∀ n < 16, hexValue? (hexDigit n) = some n := by decide

theorem unit?_control {c : Char} (hc : c.toNat < 32) :
    unit? '0' '0' (hexDigit (c.toNat / 16)) (hexDigit (c.toNat % 16)) = some c.toNat := by
  have hzero : hexValue? '0' = some 0 := by decide
  have hhigh := hexValue?_hexDigit (c.toNat / 16) (by omega)
  have hlow := hexValue?_hexDigit (c.toNat % 16) (by omega)
  simp only [unit?, hzero, hhigh, hlow, Option.bind_eq_bind, Option.bind_some, Option.pure_def,
    Option.some.injEq]
  omega

theorem readString_escape {c : Char} {escape tail : List Char} {content : Option (List Char)}
    {cs : List Char} (hescape : Yields (readEscape (escape ++ cs)) (some c) cs)
    (hcs : Yields (readString cs) content tail) :
    Yields (readString ('\\' :: (escape ++ cs))) (consAll (some c) content) tail := by
  obtain ⟨after, hafter, hval⟩ := hescape
  rw [← hval] at hcs
  obtain ⟨last, hlast, htail⟩ := hcs
  refine ⟨(NotLonger.trans after (Shorter.loosen last)).cons, ?_, htail⟩
  rw [readString]
  simp [hafter, hlast]

theorem readEscape_short {c d : Char} (hd : shortEscape? d = some c) (hu : d ≠ 'u') (cs : List Char) :
    Yields (readEscape ([d] ++ cs)) (some c) cs := by
  refine ⟨NotLonger.tail, ?_, rfl⟩
  simp only [List.singleton_append]
  rw [readEscape]
  · rw [hd]
    rfl
  · intro a b c' d' rest h
    exact absurd h hu

theorem readEscape_unit {c : Char} {h₁ h₂ : Char} (hunit : unit? '0' '0' h₁ h₂ = some c.toNat)
    (hc : c.toNat < 32) (cs : List Char) :
    Yields (readEscape (['u', '0', '0', h₁, h₂] ++ cs)) (some c) cs := by
  have hhigh : isHighSurrogate c.toNat = false := by
    simp only [isHighSurrogate, Bool.and_eq_false_iff, decide_eq_false_iff_not]
    omega
  have hlow : isLowSurrogate c.toNat = false := by
    simp only [isLowSurrogate, Bool.and_eq_false_iff, decide_eq_false_iff_not]
    omega
  refine ⟨Shorter.tail.cons.cons.cons.cons.loosen, ?_, rfl⟩
  simp only [List.cons_append, List.nil_append]
  rw [readEscape]
  simp [hunit, hhigh, hlow, Char.ofNat_toNat]

theorem escaped_cases (c : Char) :
    (∃ d, escaped c = '\\' :: [d] ∧ shortEscape? d = some c ∧ d ≠ 'u') ∨
    (escaped c = '\\' :: ['u', '0', '0', hexDigit (c.toNat / 16), hexDigit (c.toNat % 16)] ∧
      c.toNat < 32) ∨
    (escaped c = [c] ∧ c ≠ '"' ∧ c ≠ '\\' ∧ ¬c.toNat < 32) := by
  by_cases hshort : c ∈ ['"', '\\', '\n', '\r', '\t', '\x08', '\x0c']
  · left
    simp only [List.mem_cons, List.not_mem_nil, or_false] at hshort
    rcases hshort with rfl | rfl | rfl | rfl | rfl | rfl | rfl <;>
      exact ⟨_, rfl, by decide, by decide⟩
  · simp only [List.mem_cons, List.not_mem_nil, or_false, not_or] at hshort
    obtain ⟨h₁, h₂, h₃, h₄, h₅, h₆, h₇⟩ := hshort
    by_cases hc : c.toNat < 32
    · exact .inr (.inl ⟨by simp [escaped, *], hc⟩)
    · exact .inr (.inr ⟨by simp [escaped, *], h₁, h₂, hc⟩)

theorem readString_escaped (c : Char) {cs tail : List Char} {content : List Char}
    (hcs : Yields (readString cs) (some content) tail) :
    Yields (readString (escaped c ++ cs)) (some (c :: content)) tail := by
  rcases escaped_cases c with ⟨d, he, hd, hu⟩ | ⟨he, hc⟩ | ⟨he, hquote, hslash, hc⟩
  · rw [he]
    exact readString_escape (readEscape_short hd hu cs) hcs
  · rw [he]
    exact readString_escape (readEscape_unit (unit?_control hc) hc cs) hcs
  · rw [he]
    obtain ⟨last, hlast, htail⟩ := hcs
    refine ⟨Shorter.cons last, ?_, htail⟩
    change readString (c :: cs) = _
    rw [readString]
    simp [hquote, hslash, hc, hlast, consAll]

theorem readString_quoted (content tail : List Char) :
    Yields (readString (content.flatMap escaped ++ '"' :: tail)) (some content) tail := by
  induction content with
  | nil =>
    refine ⟨Shorter.tail, ?_, rfl⟩
    change readString ('"' :: tail) = _
    rw [readString]
    simp
  | cons c content ih =>
    rw [List.flatMap_cons, List.append_assoc]
    exact readString_escaped c ih

-- What may stand behind a number: nothing that would count as more of it.
def Ends (tail : List Char) : Prop :=
  ∀ c ∈ tail.head?, c.isDigit = false ∧ c ≠ '.' ∧ c ≠ 'e' ∧ c ≠ 'E'

theorem ends_nil : Ends [] := fun _ h => nomatch h

theorem ends_cons {c : Char} (hc : c.isDigit = false ∧ c ≠ '.' ∧ c ≠ 'e' ∧ c ≠ 'E') (tail : List Char) :
    Ends (c :: tail) := by
  rintro d ⟨⟩
  exact hc

theorem ends_blanks {ws tail : List Char} (hws : Blanks ws) (htail : Ends tail) : Ends (ws ++ tail) := by
  cases ws with
  | nil => exact htail
  | cons w ws =>
    have hspace := hws w (by simp)
    refine ends_cons ⟨?_, ?_, ?_, ?_⟩ _
    · simp only [isSpace, Bool.or_eq_true, beq_iff_eq] at hspace
      rcases hspace with ((rfl | rfl) | rfl) | rfl <;> decide
    all_goals
      rintro rfl
      exact absurd hspace (by decide)

theorem significand_eq {digits : List Char} {start : Nat}
    (h : Nat.ofDigitChars 10 digits start < wordLimit) :
    significand start digits = (Nat.ofDigitChars 10 digits start, 0) := by
  induction digits generalizing start with
  | nil => simp [significand]
  | cons d ds ih =>
    rw [Nat.ofDigitChars_cons] at h ⊢
    have hnext : 10 * start + Decimal.digitValue d < wordLimit := by
      refine Nat.lt_of_le_of_lt ?_ h
      rw [Nat.ofDigitChars_eq_ofDigitChars_zero]
      exact Nat.le_add_right_of_le (Nat.le_mul_of_pos_left _ (Nat.pow_pos (by decide)))
    rw [significand, if_pos hnext]
    exact ih h

theorem readFraction_ends {cs : List Char} (h : Ends cs) : readFraction cs = some (none, .all) := by
  unfold readFraction
  split
  · exact absurd rfl (h _ rfl).2.1
  · rfl

theorem readExponent_ends {cs : List Char} (h : Ends cs) : readExponent cs = some (none, .all) := by
  unfold readExponent
  split
  · rfl
  · next c more =>
    obtain ⟨-, -, he, he'⟩ := h c rfl
    simp [he, he']

theorem readNumber_natural {n : Nat} (hn : n < wordLimit) {c : Char} {cs tail : List Char}
    (hdigits : Nat.toDigits 10 n = c :: cs) (htail : Ends tail) :
    Yields (readNumber false c (cs ++ tail)) (Document.natural n) tail := by
  obtain ⟨d, ds, hcons, hall, hzero⟩ := Decimal.exists_toDigits_eq_cons n
  obtain ⟨rfl, rfl⟩ := List.cons.inj (hdigits.symm.trans hcons)
  obtain ⟨hc, hcs⟩ := List.forall_mem_cons.mp hall
  have hrest : ∀ d ∈ tail.head?, d.isDigit = false := fun d hd => (htail d hd).1
  have hothers := takeWhile_front hcs hrest
  have hafter : (afterDigits (cs ++ tail)).val = tail := dropWhile_front hcs hrest
  have hvalue : Nat.ofDigitChars 10 (c :: cs) 0 = n := by
    rw [← hdigits, Nat.ofDigitChars_ten_toDigits]
  have hsignificand : significand 0 (c :: cs) = (n, 0) := by
    rw [significand_eq (by rwa [hvalue]), hvalue]
  have hleading : (!c.isDigit || (decide (c = '0') && !cs.isEmpty)) = false := by
    rw [hc]
    by_cases h : c = '0'
    · simp [hzero h]
    · simp [h]
  have hends : Ends (afterDigits (cs ++ tail)).val := by rwa [hafter]
  have hexponent : readExponent (NotLonger.all : NotLonger (afterDigits (cs ++ tail)).val).val =
    some (none, .all) := readExponent_ends hends
  refine ⟨_, ?_, hafter⟩
  unfold readNumber
  rw [hothers]
  simp only [hleading, Bool.false_eq_true, if_false, readFraction_ends hends, hexponent]
  simp [numberOf, hsignificand, Document.natural]
  rfl

section Reading

variable {cs tail : List Char}

theorem readDocument_word (c : Char) (word : List Char) (d : Document)
    (hword : (c, word, d) ∈ [('t', "rue".toList, .bool true), ('f', "alse".toList, .bool false),
      ('n', "ull".toList, .null)])
    (h : Yields (next cs) c (word ++ tail)) : Yields (readDocument cs) d tail := by
  obtain ⟨rest, hrest, hval⟩ := h
  refine ⟨NotLonger.shorter (NotLonger.drop word.length rest.val) rest.property, ?_,
    by simp [NotLonger.shorter, NotLonger.drop, hval]⟩
  rw [readDocument, hrest]
  simp only [List.mem_cons, Prod.mk.injEq, List.not_mem_nil, or_false] at hword
  rcases hword with ⟨rfl, rfl, rfl⟩ | ⟨rfl, rfl, rfl⟩ | ⟨rfl, rfl, rfl⟩ <;> simp [readWord, hval]

theorem readDocument_natural {n : Nat} (hn : n < wordLimit) {c : Char} {more : List Char}
    (hdigits : Nat.toDigits 10 n = c :: more) (htail : Ends tail)
    (h : Yields (next cs) c (more ++ tail)) : Yields (readDocument cs) (.natural n) tail := by
  obtain ⟨rest, hrest, hval⟩ := h
  have hnumber := readNumber_natural hn hdigits htail
  rw [← hval] at hnumber
  obtain ⟨after, hafter, hend⟩ := hnumber
  refine ⟨NotLonger.shorter after rest.property, ?_, hend⟩
  have hc : c.isDigit = true := Decimal.isDigit_of_mem_toDigits (n := n) (by simp [hdigits])
  have hmarks : ∀ d ∈ ['"', '[', '{', 't', 'f', 'n', '-'], c ≠ d := by
    intro d hd hcd
    subst hcd
    simp only [List.mem_cons, List.not_mem_nil, or_false] at hd
    rcases hd with rfl | rfl | rfl | rfl | rfl | rfl | rfl <;> exact absurd hc (by decide)
  rw [readDocument, hrest]
  simp only [List.forall_mem_cons] at hmarks
  obtain ⟨h₁, h₂, h₃, h₄, h₅, h₆, h₇, -⟩ := hmarks
  simp [h₁, h₂, h₃, h₄, h₅, h₆, h₇, hafter]

theorem readDocument_string {content : List Char}
    (h : Yields (next cs) '"' (content.flatMap escaped ++ '"' :: tail)) :
    Yields (readDocument cs) (.text (String.ofList content)) tail := by
  obtain ⟨rest, hrest, hval⟩ := h
  have hcontent := readString_quoted content tail
  rw [← hval] at hcontent
  obtain ⟨after, hafter, htail⟩ := hcontent
  refine ⟨Shorter.weaken after (Nat.le_of_lt rest.property), ?_, htail⟩
  rw [readDocument, hrest]
  simp [hafter, Document.text]

theorem readDocument_emptyArray (h : Yields (next cs) '[' (']' :: tail)) :
    Yields (readDocument cs) (.array []) tail := by
  obtain ⟨rest, hrest, hval⟩ := h
  have hclose : Yields (next rest.val) ']' tail := by
    rw [hval]
    exact next_solid (by decide) tail
  obtain ⟨after, hafter, htail⟩ := hclose
  refine ⟨Shorter.weaken after (Nat.le_of_lt rest.property), ?_, htail⟩
  rw [readDocument, hrest]
  simp [hafter]

theorem readDocument_emptyObject (h : Yields (next cs) '{' ('}' :: tail)) :
    Yields (readDocument cs) (.object []) tail := by
  obtain ⟨rest, hrest, hval⟩ := h
  have hclose : Yields (next rest.val) '}' tail := by
    rw [hval]
    exact next_solid (by decide) tail
  obtain ⟨after, hafter, htail⟩ := hclose
  refine ⟨Shorter.weaken after (Nat.le_of_lt rest.property), ?_, htail⟩
  rw [readDocument, hrest]
  simp [hafter]

-- What stands behind an opening bracket or brace when it does not close at once.
def Opens (close : Char) (cs : List Char) : Prop := ∃ c, c ≠ close ∧ ∃ rest, Yields (next cs) c rest

theorem readDocument_array {inner afterFirst : List Char} {d : Document} {ds : List Document}
    (h : Yields (next cs) '[' inner) (hopens : Opens ']' inner)
    (hd : Yields (readDocument inner) d afterFirst) (hds : Yields (readItems afterFirst) ds tail) :
    Yields (readDocument cs) (.array (d :: ds)) tail := by
  obtain ⟨rest, hrest, rfl⟩ := h
  obtain ⟨after, hafter, rfl⟩ := hd
  obtain ⟨last, hlast, htail⟩ := hds
  obtain ⟨c, hc, _, more, hmore, -⟩ := hopens
  refine ⟨Shorter.weaken last (by have := rest.property; have := after.property; omega), ?_, htail⟩
  rw [readDocument, hrest]
  simp only [hmore, hafter, hlast, reduceIte, Char.reduceEq]
  split
  · next heq => exact absurd (congrArg Prod.fst (Option.some.inj heq)) hc
  · rfl

theorem readDocument_object {inner afterFirst : List Char} {m : Option String × Document}
    {ms : List (Option String × Document)} (h : Yields (next cs) '{' inner) (hopens : Opens '}' inner)
    (hm : Yields (readMember inner) m afterFirst) (hms : Yields (readMembers afterFirst) ms tail) :
    Yields (readDocument cs) (.object (m :: ms)) tail := by
  obtain ⟨rest, hrest, rfl⟩ := h
  obtain ⟨after, hafter, rfl⟩ := hm
  obtain ⟨last, hlast, htail⟩ := hms
  obtain ⟨c, hc, _, more, hmore, -⟩ := hopens
  refine ⟨Shorter.weaken last (by have := rest.property; have := after.property; omega), ?_, htail⟩
  rw [readDocument, hrest]
  simp only [hmore, hafter, hlast, reduceIte, Char.reduceEq]
  split
  · next heq => exact absurd (congrArg Prod.fst (Option.some.inj heq)) hc
  · rfl

theorem readItems_close (h : Yields (next cs) ']' tail) : Yields (readItems cs) [] tail := by
  obtain ⟨rest, hrest, hval⟩ := h
  refine ⟨rest, ?_, hval⟩
  rw [readItems, hrest]
  simp

theorem readItems_more {inner afterFirst : List Char} {d : Document} {ds : List Document}
    (h : Yields (next cs) ',' inner) (hd : Yields (readDocument inner) d afterFirst)
    (hds : Yields (readItems afterFirst) ds tail) : Yields (readItems cs) (d :: ds) tail := by
  obtain ⟨rest, hrest, rfl⟩ := h
  obtain ⟨after, hafter, rfl⟩ := hd
  obtain ⟨last, hlast, htail⟩ := hds
  refine ⟨Shorter.weaken last (by have := rest.property; have := after.property; omega), ?_, htail⟩
  rw [readItems, hrest]
  simp [hafter, hlast]

theorem readMembers_close (h : Yields (next cs) '}' tail) : Yields (readMembers cs) [] tail := by
  obtain ⟨rest, hrest, hval⟩ := h
  refine ⟨rest, ?_, hval⟩
  rw [readMembers, hrest]
  simp

theorem readMembers_more {inner afterFirst : List Char} {m : Option String × Document}
    {ms : List (Option String × Document)} (h : Yields (next cs) ',' inner)
    (hm : Yields (readMember inner) m afterFirst) (hms : Yields (readMembers afterFirst) ms tail) :
    Yields (readMembers cs) (m :: ms) tail := by
  obtain ⟨rest, hrest, rfl⟩ := h
  obtain ⟨after, hafter, rfl⟩ := hm
  obtain ⟨last, hlast, htail⟩ := hms
  refine ⟨Shorter.weaken last (by have := rest.property; have := after.property; omega), ?_, htail⟩
  rw [readMembers, hrest]
  simp [hafter, hlast]

theorem readMember_named (content : List Char) {inner : List Char} {d : Document}
    (h : Yields (next cs) '"' (content.flatMap escaped ++ '"' :: ':' :: inner))
    (hd : Yields (readDocument inner) d tail) :
    Yields (readMember cs) (some (String.ofList content), d) tail := by
  obtain ⟨rest, hrest, hval⟩ := h
  have hcontent := readString_quoted content (':' :: inner)
  rw [← hval] at hcontent
  obtain ⟨after, hafter, hcolon⟩ := hcontent
  have hnext : Yields (next after.val) ':' inner := by
    rw [hcolon]
    exact next_solid (by decide) inner
  obtain ⟨more, hmore, rfl⟩ := hnext
  obtain ⟨last, hlast, htail⟩ := hd
  refine ⟨Shorter.weaken last (by
    have := rest.property
    have := after.property
    have := more.property
    omega), ?_, htail⟩
  rw [readMember, hrest]
  simp [hafter, hmore, hlast]

theorem readMember_blanks {ws : List Char} (hws : Blanks ws) (name : String) {inner : List Char}
    {d : Document} (hd : Yields (readDocument inner) d tail) :
    Yields (readMember (ws ++ '"' :: (name.toList.flatMap escaped ++ '"' :: ':' :: inner)))
      (some name, d) tail := by
  have hmember := readMember_named name.toList (next_blanks hws (by decide) _) hd
  rwa [String.ofList_toList] at hmember

end Reading

namespace Document

mutual

-- Documents that their text tells in full: nothing is left out, and numbers are natural and take at
-- most 64 bits.
def Textual : Document → Prop
  | null | bool _ => True
  | number (some (.integer n)) => 0 ≤ n ∧ n < wordLimit
  | string s => s.isSome = true
  | array items => TextualItems items
  | object members => TextualMembers members
  | _ => False

def TextualItems : List Document → Prop
  | [] => True
  | d :: ds => Textual d ∧ TextualItems ds

def TextualMembers : List (Option String × Document) → Prop
  | [] => True
  | (name, d) :: ds => name.isSome = true ∧ Textual d ∧ TextualMembers ds

end

theorem textual_record {members : List (String × Document)} :
    (record members).Textual ↔ ∀ m ∈ members, m.2.Textual := by
  rw [record, Textual]
  induction members with
  | nil => simp [TextualMembers]
  | cons m members ih => simp [TextualMembers, ih]

mutual

theorem Textual.intact : ∀ {d : Document}, d.Textual → d.intact = true
  | null, _ | bool _, _ | number (some (.integer _)), _ => by simp [Document.intact]
  | string (some _), _ => by simp [Document.intact]
  | array items, h => by
    rw [Textual] at h
    rw [Document.intact]
    exact h.intact
  | object members, h => by
    rw [Textual] at h
    rw [Document.intact]
    exact h.intact

theorem TextualItems.intact : ∀ {ds : List Document}, TextualItems ds → intactItems ds = true
  | [], _ => by simp [intactItems]
  | d :: ds, h => by
    rw [TextualItems] at h
    simp [intactItems, h.1.intact, h.2.intact]

theorem TextualMembers.intact : ∀ {ds : List (Option String × Document)}, TextualMembers ds →
    intactMembers ds = true
  | [], _ => by simp [intactMembers]
  | (name, d) :: ds, h => by
    rw [TextualMembers] at h
    simp [intactMembers, h.1, h.2.1.intact, h.2.2.intact]

end

mutual

-- The text of a document with blanks in front of items and members and after colons.
def laid (gap : Nat → List Char) (pad : List Char) (level : Nat) : Document → List Char
  | array (d :: ds) =>
    '[' :: (gap (level + 1) ++ laid gap pad (level + 1) d ++ laidItems gap pad level ds)
  | object ((name, d) :: ds) =>
    '{' :: (gap (level + 1) ++ quoted (name.getD "") ++ ':' :: (pad ++ laid gap pad (level + 1) d)
      ++ laidMembers gap pad level ds)
  | d => write d

def laidItems (gap : Nat → List Char) (pad : List Char) (level : Nat) : List Document → List Char
  | [] => gap level ++ [']']
  | d :: ds => ',' :: (gap (level + 1) ++ laid gap pad (level + 1) d ++ laidItems gap pad level ds)

def laidMembers (gap : Nat → List Char) (pad : List Char) (level : Nat) :
    List (Option String × Document) → List Char
  | [] => gap level ++ ['}']
  | (name, d) :: ds =>
    ',' :: (gap (level + 1) ++ quoted (name.getD "") ++ ':' :: (pad ++ laid gap pad (level + 1) d)
      ++ laidMembers gap pad level ds)

end

mutual

theorem indented_eq_laid (level : Nat) : ∀ d, indented level d = laid margin [' '] level d
  | array (d :: ds) => by
    rw [indented, laid, indented_eq_laid, indentedItems_eq_laid]
  | object ((name, d) :: ds) => by
    rw [indented, laid, indented_eq_laid, indentedMembers_eq_laid]
    rfl
  | array [] | object [] | null | bool _ | number _ | string _ => by simp [indented, laid]

theorem indentedItems_eq_laid (level : Nat) :
    ∀ ds, indentedItems level ds = laidItems margin [' '] level ds
  | [] => by rw [indentedItems, laidItems]
  | d :: ds => by rw [indentedItems, laidItems, indented_eq_laid, indentedItems_eq_laid]

theorem indentedMembers_eq_laid (level : Nat) :
    ∀ ds, indentedMembers level ds = laidMembers margin [' '] level ds
  | [] => by rw [indentedMembers, laidMembers]
  | (name, d) :: ds => by
    rw [indentedMembers, laidMembers, indented_eq_laid, indentedMembers_eq_laid]
    rfl

end

mutual

theorem write_eq_laid (level : Nat) : ∀ d, write d = laid (fun _ => []) [] level d
  | array (d :: ds) => by
    rw [write, laid, write_eq_laid (level + 1), writeItems_eq_laid level]
    rfl
  | object ((name, d) :: ds) => by
    rw [write, laid, write_eq_laid (level + 1), writeMembers_eq_laid level]
    simp
  | array [] | object [] | null | bool _ | number _ | string _ => by simp [laid]

theorem writeItems_eq_laid (level : Nat) : ∀ ds, writeItems ds = laidItems (fun _ => []) [] level ds
  | [] => by rw [writeItems, laidItems, List.nil_append]
  | d :: ds => by
    rw [writeItems, laidItems, write_eq_laid (level + 1), writeItems_eq_laid level, List.nil_append]

theorem writeMembers_eq_laid (level : Nat) :
    ∀ ds, writeMembers ds = laidMembers (fun _ => []) [] level ds
  | [] => by rw [writeMembers, laidMembers, List.nil_append]
  | (name, d) :: ds => by
    rw [writeMembers, laidMembers, write_eq_laid (level + 1), writeMembers_eq_laid level]
    simp

end

section Laid

variable {gap : Nat → List Char} {pad : List Char}

theorem laid_natural (level n : Nat) :
    laid gap pad level (number (some (.integer n))) = Nat.toDigits 10 n := by
  have hsign : ¬(n : Int) < 0 := by omega
  simp only [laid, write, Option.map_some, Option.getD_some, Number.text, Number.integerText, hsign,
    if_false, Int.natAbs_natCast]

theorem opens_laid {d : Document} (hd : d.Textual) {level : Nat} {ws tail : List Char}
    (hws : Blanks ws) : Opens ']' (ws ++ (laid gap pad level d ++ tail)) := by
  have hopens : ∀ c cs, laid gap pad level d ++ tail = c :: cs → isSpace c = false → c ≠ ']' →
      Opens ']' (ws ++ (laid gap pad level d ++ tail)) := by
    intro c cs hcs hspace hc
    rw [hcs]
    exact ⟨c, hc, cs, next_blanks hws hspace cs⟩
  match d, hd with
  | null, _ => exact hopens 'n' _ rfl (by decide) (by decide)
  | bool true, _ => exact hopens 't' _ rfl (by decide) (by decide)
  | bool false, _ => exact hopens 'f' _ rfl (by decide) (by decide)
  | number (some (.integer n)), h =>
    obtain ⟨m, rfl⟩ := Int.eq_ofNat_of_zero_le h.1
    obtain ⟨c, cs, hdigits, hall, -⟩ := Decimal.exists_toDigits_eq_cons m
    have hc := hall c (by simp)
    refine hopens c (cs ++ tail) ?_ (isSpace_digit hc) ?_
    · rw [laid_natural, hdigits]
      rfl
    · rintro rfl
      exact absurd hc (by decide)
  | string (some s), _ => exact hopens '"' _ rfl (by decide) (by decide)
  | array [], _ => exact hopens '[' _ rfl (by decide) (by decide)
  | array (d :: ds), _ => exact hopens '[' _ rfl (by decide) (by decide)
  | object [], _ => exact hopens '{' _ rfl (by decide) (by decide)
  | object ((name, d) :: ds), _ => exact hopens '{' _ rfl (by decide) (by decide)

theorem ends_laidItems (hgap : ∀ n, Blanks (gap n)) (level : Nat) (ds : List Document)
    (tail : List Char) : Ends (laidItems gap pad level ds ++ tail) := by
  cases ds with
  | nil =>
    rw [laidItems, List.append_assoc]
    exact ends_blanks (hgap level) (ends_cons (by decide) tail)
  | cons d ds =>
    rw [laidItems]
    exact ends_cons (by decide) _

theorem ends_laidMembers (hgap : ∀ n, Blanks (gap n)) (level : Nat)
    (ds : List (Option String × Document)) (tail : List Char) :
    Ends (laidMembers gap pad level ds ++ tail) := by
  cases ds with
  | nil =>
    rw [laidMembers, List.append_assoc]
    exact ends_blanks (hgap level) (ends_cons (by decide) tail)
  | cons d ds =>
    rw [laidMembers]
    exact ends_cons (by decide) _

mutual

theorem readDocument_laid (hgap : ∀ n, Blanks (gap n)) (hpad : Blanks pad) :
    ∀ (d : Document) (level : Nat) (ws tail : List Char), d.Textual → Blanks ws → Ends tail →
      Yields (readDocument (ws ++ (laid gap pad level d ++ tail))) d tail
  | null, level, ws, tail, _, hws, _ =>
    readDocument_word 'n' "ull".toList null (by simp) (next_blanks hws (by decide) _)
  | bool true, level, ws, tail, _, hws, _ =>
    readDocument_word 't' "rue".toList (bool true) (by simp) (next_blanks hws (by decide) _)
  | bool false, level, ws, tail, _, hws, _ =>
    readDocument_word 'f' "alse".toList (bool false) (by simp) (next_blanks hws (by decide) _)
  | number (some (.integer n)), level, ws, tail, h, hws, htail => by
    obtain ⟨m, rfl⟩ := Int.eq_ofNat_of_zero_le h.1
    obtain ⟨c, cs, hdigits, hall, -⟩ := Decimal.exists_toDigits_eq_cons m
    have htext : laid gap pad level (number (some (.integer m))) ++ tail = c :: (cs ++ tail) := by
      rw [laid_natural, hdigits]
      rfl
    rw [htext]
    exact readDocument_natural (Int.ofNat_lt.mp h.2) hdigits htail
      (next_blanks hws (isSpace_digit (hall c (by simp))) _)
  | string (some s), level, ws, tail, _, hws, _ => by
    have hnext := next_blanks hws (c := '"') (by decide) (s.toList.flatMap escaped ++ '"' :: tail)
    have htext : laid gap pad level (string (some s)) ++ tail =
        '"' :: (s.toList.flatMap escaped ++ '"' :: tail) := by simp [laid, write, quoted]
    rw [htext]
    have hread := readDocument_string hnext
    rwa [String.ofList_toList] at hread
  | array [], level, ws, tail, _, hws, _ => readDocument_emptyArray (next_blanks hws (by decide) _)
  | object [], level, ws, tail, _, hws, _ => readDocument_emptyObject (next_blanks hws (by decide) _)
  | array (d :: ds), level, ws, tail, h, hws, _ => by
    simp only [Textual, TextualItems] at h
    have htext : laid gap pad level (array (d :: ds)) ++ tail = '[' :: (gap (level + 1) ++
        (laid gap pad (level + 1) d ++ (laidItems gap pad level ds ++ tail))) := by simp [laid]
    rw [htext]
    exact readDocument_array (next_blanks hws (by decide) _) (opens_laid h.1 (hgap _))
      (readDocument_laid hgap hpad d (level + 1) _ _ h.1 (hgap _) (ends_laidItems hgap level ds tail))
      (readItems_laid hgap hpad ds level tail h.2)
  | object ((some name, d) :: ds), level, ws, tail, h, hws, _ => by
    simp only [Textual, TextualMembers] at h
    have htext : laid gap pad level (object ((some name, d) :: ds)) ++ tail = '{' :: (gap (level + 1) ++
        '"' :: (name.toList.flatMap escaped ++ '"' :: ':' :: (pad ++
          (laid gap pad (level + 1) d ++ (laidMembers gap pad level ds ++ tail))))) := by
      simp [laid, quoted]
    rw [htext]
    exact readDocument_object (next_blanks hws (by decide) _)
      ⟨'"', by decide, _, next_blanks (hgap _) (by decide) _⟩
      (readMember_blanks (hgap _) name (readDocument_laid hgap hpad d (level + 1) _ _ h.2.1 hpad
        (ends_laidMembers hgap level ds tail)))
      (readMembers_laid hgap hpad ds level tail h.2.2)

theorem readItems_laid (hgap : ∀ n, Blanks (gap n)) (hpad : Blanks pad) :
    ∀ (ds : List Document) (level : Nat) (tail : List Char), TextualItems ds →
      Yields (readItems (laidItems gap pad level ds ++ tail)) ds tail
  | [], level, tail, _ => by
    have htext : laidItems gap pad level [] ++ tail = gap level ++ ']' :: tail := by simp [laidItems]
    rw [htext]
    exact readItems_close (next_blanks (hgap level) (by decide) tail)
  | d :: ds, level, tail, h => by
    simp only [TextualItems] at h
    have htext : laidItems gap pad level (d :: ds) ++ tail = [] ++ ',' :: (gap (level + 1) ++
        (laid gap pad (level + 1) d ++ (laidItems gap pad level ds ++ tail))) := by simp [laidItems]
    rw [htext]
    exact readItems_more (next_blanks (by simp [Blanks]) (by decide) _)
      (readDocument_laid hgap hpad d (level + 1) _ _ h.1 (hgap _) (ends_laidItems hgap level ds tail))
      (readItems_laid hgap hpad ds level tail h.2)

theorem readMembers_laid (hgap : ∀ n, Blanks (gap n)) (hpad : Blanks pad) :
    ∀ (ds : List (Option String × Document)) (level : Nat) (tail : List Char), TextualMembers ds →
      Yields (readMembers (laidMembers gap pad level ds ++ tail)) ds tail
  | [], level, tail, _ => by
    have htext : laidMembers gap pad level [] ++ tail = gap level ++ '}' :: tail := by simp [laidMembers]
    rw [htext]
    exact readMembers_close (next_blanks (hgap level) (by decide) tail)
  | (some name, d) :: ds, level, tail, h => by
    simp only [TextualMembers] at h
    have htext : laidMembers gap pad level ((some name, d) :: ds) ++ tail =
        [] ++ ',' :: (gap (level + 1) ++
        '"' :: (name.toList.flatMap escaped ++ '"' :: ':' :: (pad ++
          (laid gap pad (level + 1) d ++ (laidMembers gap pad level ds ++ tail))))) := by
      simp [laidMembers, quoted]
    rw [htext]
    exact readMembers_more (next_blanks (by simp [Blanks]) (by decide) _)
      (readMember_blanks (hgap _) name (readDocument_laid hgap hpad d (level + 1) _ _ h.2.1 hpad
        (ends_laidMembers hgap level ds tail)))
      (readMembers_laid hgap hpad ds level tail h.2.2)

end

theorem read?_laid (hgap : ∀ n, Blanks (gap n)) (hpad : Blanks pad) {d : Document} (hd : d.Textual)
    (level : Nat) : read? (String.ofList (laid gap pad level d)) = some d := by
  have hread := readDocument_laid hgap hpad d level [] [] hd (by simp [Blanks]) ends_nil
  rw [List.nil_append, List.append_nil, ← String.toList_ofList (l := laid gap pad level d)] at hread
  obtain ⟨rest, hrest, hval⟩ := hread
  rw [read?, hrest]
  simp [hval]

end Laid

theorem read?_toText {d : Document} (hd : d.Textual) : read? d.toText = some d := by
  rw [toText, write_eq_laid 0]
  exact read?_laid (fun _ => by simp [Blanks]) (by simp [Blanks]) hd 0

theorem read?_toIndentedText {d : Document} (hd : d.Textual) : read? d.toIndentedText = some d := by
  rw [toIndentedText, indented_eq_laid]
  refine read?_laid (fun n c hc => ?_) (by simp [Blanks, isSpace]) hd 0
  rcases List.mem_cons.mp hc with rfl | hc
  · decide
  · rw [(List.mem_replicate.mp hc).2]
    decide

end Document

end TemplateEngine.Json
