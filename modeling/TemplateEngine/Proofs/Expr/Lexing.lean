import TemplateEngine.Expr.Grammar
import TemplateEngine.Proofs.Decimal.Exact

-- Tokens are written with one blank between them, and read back one by one.
namespace TemplateEngine.Expr

inductive Lexeme where
  | word (name : String)
  | variableName (name : String)
  | string (s : String)
  | numeral (n : Nat)
  | symbol (s : Symbol)

-- What may be spelled in two ways: the words that stand for operators, and the quotes of strings.
structure Style where
  words : Bool
  doubled : Bool

def Style.quote (style : Style) : Char := if style.doubled then '"' else '\''

def escaped (quote c : Char) : List Char :=
  if c = '\n' then ['\\', 'n']
  else if c = '\t' then ['\\', 't']
  else if c = '\\' || c = quote then ['\\', c]
  else [c]

def Lexeme.written (style : Style) : Lexeme → List Char
  | word name => name.toList
  | variableName name => '$' :: name.toList
  | string s => style.quote :: (s.toList.flatMap (escaped style.quote) ++ [style.quote])
  | numeral n => Nat.toDigits 10 n
  | symbol s => s.text.toList

def Lexeme.token : Lexeme → Token
  | word name => .word name
  | variableName name => .variableName name
  | string s => .string s
  | numeral n => .number (Decimal.nearest n 0)
  | symbol s => .symbol s

def spaced (style : Style) : List Lexeme → List Char
  | [] => []
  | [lexeme] => lexeme.written style
  | lexeme :: next :: others => lexeme.written style ++ ' ' :: spaced style (next :: others)

-- A name that a variable or an attribute may have.
structure Named (name : String) : Prop where
  filled : name ≠ ""
  continued : name.toList.all Text.continuesName = true

instance (name : String) : Decidable (Named name) :=
  decidable_of_iff (name ≠ "" ∧ name.toList.all Text.continuesName = true)
    ⟨fun h => ⟨h.1, h.2⟩, fun h => ⟨h.filled, h.continued⟩⟩

def reserved : List String := ["null", "true", "false", "or", "and", "not"]

def Lexeme.Printable : Lexeme → Prop
  | word name => name ∈ reserved
  | variableName name => Named name
  | _ => True

-- Nothing, or a blank.
def Apart (cs : List Char) : Prop := ∀ c ∈ cs.head?, c = ' '

section Reading

variable {style : Style} {rest : List Char}

theorem Style.quote_cases (style : Style) : style.quote = '\'' ∨ style.quote = '"' := by
  unfold Style.quote
  split
  · exact .inr rfl
  · exact .inl rfl

theorem apart_nil : Apart [] := fun _ h => nomatch h

theorem Apart.head {p : Char → Bool} (hp : p ' ' = false) (h : Apart rest) :
    ∀ c ∈ rest.head?, p c = false := by
  intro c hc
  rw [h c hc]
  exact hp

theorem escaped_cases {quote : Char} (hquote : quote = '\'' ∨ quote = '"') (c : Char) :
    (∃ d, escaped quote c = ['\\', d] ∧ unescaped d = c) ∨
      escaped quote c = [c] ∧ c ≠ '\\' ∧ c ≠ quote := by
  by_cases hline : c = '\n'
  · exact .inl ⟨'n', by simp [escaped, hline], by simp [unescaped, hline]⟩
  by_cases htab : c = '\t'
  · exact .inl ⟨'t', by simp [escaped, htab], by simp [unescaped, htab]⟩
  by_cases hmark : c = '\\' ∨ c = quote
  · refine .inl ⟨c, by simp [escaped, hline, htab, hmark], ?_⟩
    rcases hmark with rfl | rfl
    · rfl
    · rcases hquote with rfl | rfl <;> rfl
  · rw [not_or] at hmark
    exact .inr ⟨by simp [escaped, hline, htab, hmark], hmark⟩

theorem readString_plain {quote c : Char} (hc : c ≠ '\\') (cs : List Char) :
    readString quote (c :: cs) =
      if c = quote then some ([], .tail)
      else (readString quote cs).map fun (content, after) => (c :: content, after.cons) := by
  rw [readString]
  · exact fun h => absurd h hc
  · exact fun d more h => absurd h hc

-- Strings are read up to their own quote, and what was escaped in them is itself again.
theorem readString_escaped {quote : Char} (hquote : quote = '\'' ∨ quote = '"') (content rest : List Char) :
    ∃ after, readString quote (content.flatMap (escaped quote) ++ quote :: rest) = some (content, after) ∧
      after.val = rest := by
  induction content with
  | nil =>
    have hslash : quote ≠ '\\' := by rcases hquote with rfl | rfl <;> decide
    refine ⟨Shorter.tail, ?_, rfl⟩
    exact (readString_plain hslash rest).trans (if_pos rfl)
  | cons c content ih =>
    obtain ⟨after, hafter, hval⟩ := ih
    rw [List.flatMap_cons, List.append_assoc]
    rcases escaped_cases hquote c with ⟨d, hpair, hd⟩ | ⟨hplain, hslash, hc⟩
    · rw [hpair]
      refine ⟨after.cons.cons, ?_, hval⟩
      change readString quote ('\\' :: d :: (content.flatMap (escaped quote) ++ quote :: rest)) = _
      rw [readString, hafter, Option.map_some, hd]
    · rw [hplain]
      refine ⟨after.cons, ?_, hval⟩
      change readString quote (c :: (content.flatMap (escaped quote) ++ quote :: rest)) = _
      rw [readString_plain hslash, if_neg hc, hafter, Option.map_some]

theorem takeWhile_name {cs : List Char} (hcs : cs.all Text.continuesName = true)
    (hrest : ∀ c ∈ rest.head?, Text.continuesName c = false) :
    (cs ++ rest).takeWhile Text.continuesName = cs ∧
      (cs ++ rest).dropWhile Text.continuesName = rest := by
  have hfront := List.all_eq_true.mp hcs
  exact ⟨takeWhile_front hfront hrest, dropWhile_front hfront hrest⟩

theorem numeral_digits {ds : List Char} (hds : ∀ d ∈ ds, d.isDigit = true) (rest : List Char) :
    numeral (ds ++ rest) = ds ++ numeral rest := by
  induction ds with
  | nil => rfl
  | cons d ds ih =>
    obtain ⟨hd, hds⟩ := List.forall_mem_cons.mp hds
    simp [numeral, hd, ih hds]

theorem numeral_apart (hrest : Apart rest) : numeral rest = [] := by
  cases rest with
  | nil => rfl
  | cons c rest =>
    obtain rfl := hrest c rfl
    rfl

theorem not_quote_of_digit {c : Char} (hc : c.isDigit = true) :
    (decide (c = '\'') || decide (c = '"')) = false ∧ Text.isBlank c = false :=
  Decimal.forall_digit
    (P := fun d => (decide (d = '\'') || decide (d = '"')) = false ∧ Text.isBlank d = false) (by decide) hc

-- A digit begins a number, which takes all digits behind it and all points that stand before one.
theorem readToken_digit {c : Char} (hc : c.isDigit = true) (source : String) (rest : List Char) :
    readToken source c rest =
      match Decimal.read (c :: numeral rest) with
      | none => .error (.badNumber (String.ofList (c :: numeral rest)))
      | some x => .ok (.number x, afterNumeral rest) := by
  unfold readToken
  dsimp only
  cases Decimal.read (c :: numeral rest) <;>
    simp only [(not_quote_of_digit hc).1, hc, Bool.false_eq_true, if_false, if_true]

-- What a token looks like to the reader: its first character is no blank, and behind it the token is
-- read and nothing more.
def ReadsAs (written : List Char) (token : Token) (rest : List Char) : Prop :=
  ∃ c cs, written = c :: cs ∧ Text.isBlank c = false ∧
    ∀ source, ∃ after, readToken source c (cs ++ rest) = .ok (token, after) ∧ after.val = rest

theorem readsAs_string (s : String) (rest : List Char) :
    ReadsAs ((Lexeme.string s).written style) (.string s) rest := by
  have hquote := style.quote_cases
  obtain ⟨after, hafter, hval⟩ := readString_escaped hquote s.toList rest
  refine ⟨style.quote, s.toList.flatMap (escaped style.quote) ++ [style.quote], rfl, ?_, fun source => ?_⟩
  · rcases hquote with h | h <;> rw [h] <;> decide
  · have hmark : (decide (style.quote = '\'') || decide (style.quote = '"')) = true := by simpa using hquote
    rw [List.append_assoc, List.singleton_append]
    refine ⟨after.loosen, ?_, hval⟩
    unfold readToken
    rw [if_pos hmark, hafter]
    simp

theorem readsAs_numeral (n : Nat) (hrest : numeral rest = []) :
    ReadsAs (Nat.toDigits 10 n) (.number (Decimal.nearest n 0)) rest := by
  obtain ⟨c, cs, hdigits, hall, -⟩ := Decimal.exists_toDigits_eq_cons n
  obtain ⟨hc, hcs⟩ := List.forall_mem_cons.mp hall
  have hnumeral : numeral (cs ++ rest) = cs := by rw [numeral_digits hcs, hrest, List.append_nil]
  have hread := Decimal.read_toDigits n
  refine ⟨c, cs, hdigits, (not_quote_of_digit hc).2, fun source => ⟨afterNumeral (cs ++ rest), ?_, ?_⟩⟩
  · rw [hdigits] at hread
    rw [readToken_digit hc, hnumeral, hread]
  · simp [afterNumeral, NotLonger.drop, hnumeral]

theorem readsAs_variableName {name : String} (hname : Named name)
    (hrest : ∀ c ∈ rest.head?, Text.continuesName c = false) :
    ReadsAs ('$' :: name.toList) (.variableName name) rest := by
  obtain ⟨htake, hdrop⟩ := takeWhile_name hname.continued hrest
  have hfilled : name.toList.isEmpty = false := by
    simpa using hname.filled
  refine ⟨'$', name.toList, rfl, by decide, fun source => ⟨afterName (name.toList ++ rest), ?_, hdrop⟩⟩
  unfold readToken
  simp [htake, hfilled]

-- Nothing but a word begins like a reserved word.
def isWordLetter (c : Char) : Bool :=
  !(Text.isBlank c || decide (c = '\'') || decide (c = '"') || c.isDigit || decide (c = '$')) &&
    Text.startsName c && Text.continuesName c

theorem readsAs_letters {name : String} {c : Char} {cs : List Char} (hname : name.toList = c :: cs)
    (hc : isWordLetter c = true) (hcs : cs.all Text.continuesName = true)
    (hrest : ∀ c ∈ rest.head?, Text.continuesName c = false) : ReadsAs name.toList (.word name) rest := by
  simp only [isWordLetter, Bool.and_eq_true, Bool.not_eq_true', Bool.or_eq_false_iff,
    decide_eq_false_iff_not] at hc
  obtain ⟨⟨⟨⟨⟨⟨hblank, hsingle⟩, hdouble⟩, hdigit⟩, hsigil⟩, hstart⟩, -⟩ := hc
  obtain ⟨htake, hdrop⟩ := takeWhile_name hcs hrest
  refine ⟨c, cs, hname, hblank, fun source => ⟨afterName (cs ++ rest), ?_, hdrop⟩⟩
  have hspelled : String.ofList (c :: cs) = name := by rw [← hname, String.ofList_toList]
  unfold readToken
  simp [hsingle, hdouble, hdigit, hsigil, hstart, htake, hspelled]

theorem readsAs_word {name : String} (hname : name ∈ reserved)
    (hrest : ∀ c ∈ rest.head?, Text.continuesName c = false) : ReadsAs name.toList (.word name) rest := by
  have hreserved : ∀ name ∈ reserved, name.toList ≠ [] ∧ name.toList.all isWordLetter = true := by decide
  obtain ⟨hfilled, hletters⟩ := hreserved name hname
  obtain ⟨c, cs, hcons⟩ := List.exists_cons_of_ne_nil hfilled
  rw [hcons, List.all_cons, Bool.and_eq_true] at hletters
  refine readsAs_letters hcons hletters.1 (List.all_eq_true.mpr fun d hd => ?_) hrest
  have hletter := List.all_eq_true.mp hletters.2 d hd
  rw [isWordLetter, Bool.and_eq_true] at hletter
  exact hletter.2

theorem readsAs_symbol (s : Symbol) (hrest : Apart rest) : ReadsAs s.text.toList (.symbol s) rest := by
  cases rest with
  | nil =>
    cases s <;> exact ⟨_, _, rfl, by decide, fun source => ⟨_, rfl, rfl⟩⟩
  | cons c rest =>
    obtain rfl := hrest c rfl
    cases s <;> exact ⟨_, _, rfl, by decide, fun source => ⟨_, rfl, rfl⟩⟩

theorem Lexeme.readsAs {lexeme : Lexeme} (hlexeme : lexeme.Printable) (hrest : Apart rest) :
    ReadsAs (lexeme.written style) lexeme.token rest := by
  cases lexeme with
  | word name => exact readsAs_word hlexeme (hrest.head (by decide))
  | variableName name => exact readsAs_variableName hlexeme (hrest.head (by decide))
  | string s => exact readsAs_string s rest
  | numeral n => exact readsAs_numeral n (numeral_apart hrest)
  | symbol s => exact readsAs_symbol s hrest

theorem readTokens_blank (source : String) (cs : List Char) :
    readTokens source (' ' :: cs) = readTokens source cs := by
  rw [readTokens, if_pos (by decide)]

theorem ReadsAs.readTokens {written : List Char} {token : Token} (h : ReadsAs written token rest)
    (source : String) :
    Expr.readTokens source (written ++ rest) = (Expr.readTokens source rest).map (token :: ·) := by
  obtain ⟨c, cs, rfl, hblank, hread⟩ := h
  obtain ⟨after, hafter, hval⟩ := hread source
  rw [List.cons_append, Expr.readTokens, if_neg (by simp [hblank]), hafter]
  simp only [hval]

-- The blank behind a token ends it, and is skipped before the next.
theorem readTokens_spaced (source : String) {lexemes : List Lexeme}
    (hlexemes : ∀ lexeme ∈ lexemes, lexeme.Printable) :
    readTokens source (spaced style lexemes) = .ok (lexemes.map Lexeme.token) := by
  induction lexemes with
  | nil => rw [spaced, readTokens, List.map_nil]
  | cons lexeme others ih =>
    obtain ⟨hlexeme, hothers⟩ := List.forall_mem_cons.mp hlexemes
    cases others with
    | nil =>
      have hreads : ReadsAs (lexeme.written style) lexeme.token [] := Lexeme.readsAs hlexeme apart_nil
      have hread := hreads.readTokens source
      rw [List.append_nil, readTokens] at hread
      exact hread
    | cons next others =>
      have hapart : Apart (' ' :: spaced style (next :: others)) := fun c hc => (Option.some.inj hc).symm
      rw [spaced, (Lexeme.readsAs hlexeme hapart).readTokens source, readTokens_blank, ih hothers]
      rfl

end Reading

end TemplateEngine.Expr
