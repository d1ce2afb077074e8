import TemplateEngine.Expr.Grammar
import TemplateEngine.Proofs.Markup.Quotes

-- Strings in expressions. The reader of tokens takes quotes just as the scanners of spans do, so that
-- a text which closes its quotes has no string without an end.
namespace TemplateEngine.Expr

open Markup (Mode Quoted)

section Scanning

variable {quote c : Char} {cs : List Char}

-- What the patterns of a string leave to its last two cases.
private theorem ne_backslash (hlast : c = '\\' → cs = [] → False)
    (hmore : ∀ d rest, c = '\\' → cs = d :: rest → False) : c ≠ '\\' := by
  intro hc
  cases cs with
  | nil => exact hlast hc rfl
  | cons d cs => exact hmore d cs hc rfl

-- A string ends where its quote is closed.
theorem readString_eq_some {content : List Char} {rest : Shorter cs}
    (h : readString quote cs = some (content, rest)) :
    (Mode.quoted quote).after cs = Mode.plain.after rest.val := by
  fun_induction readString quote cs generalizing content with
  | case1 | case2 => cases h
  | case3 c cs ih =>
    obtain ⟨⟨inner, after⟩, hinner, he⟩ := Option.map_eq_some_iff.mp h
    cases he
    simpa [Mode.next] using ih hinner
  | case4 cs hlast hmore =>
    cases h
    simp [Mode.next, ne_backslash hlast hmore]
  | case5 c cs hlast hmore hquote ih =>
    obtain ⟨⟨inner, after⟩, hinner, he⟩ := Option.map_eq_some_iff.mp h
    cases he
    simpa [Mode.next, ne_backslash hlast hmore, hquote] using ih hinner

theorem readString_eq_none (h : readString quote cs = none) :
    (Mode.quoted quote).after cs ≠ .plain := by
  fun_induction readString quote cs with
  | case1 => simp
  | case2 => simp [Mode.next]
  | case3 c cs ih => simpa [Mode.next] using ih (Option.map_eq_none_iff.mp h)
  | case4 => cases h
  | case5 c cs hlast hmore hquote ih =>
    simpa [Mode.next, ne_backslash hlast hmore, hquote] using ih (Option.map_eq_none_iff.mp h)

end Scanning

private theorem eq_or_of_ite {c d : Char} {s t : Symbol} {others : Option Symbol}
    (h : (if c = d then some s else others) = some t) : c = d ∧ s = t ∨ others = some t := by
  split at h
  · next hc => exact .inl ⟨hc, Option.some.inj h⟩
  · exact .inr h

theorem readSymbol_eq_some {cs : List Char} {s : Symbol} {rest : Shorter cs}
    (h : readSymbol cs = some (s, rest)) : cs = s.text.toList ++ rest.val := by
  unfold readSymbol at h
  split at h
  case h_9 c cs _ _ _ _ _ _ _ _ =>
    obtain ⟨t, ht, he⟩ := Option.map_eq_some_iff.mp h
    cases he
    iterate 14
      rcases eq_or_of_ite ht with ⟨rfl, rfl⟩ | ht
      · rfl
    cases ht
  case h_10 => cases h
  all_goals
    cases h
    rfl

-- No quote stands in a text.
def Unquoted (cs : List Char) : Prop := ∀ c ∈ cs, c ≠ '\'' ∧ c ≠ '"'

theorem unquoted_symbol (s : Symbol) : Unquoted s.text.toList := by
  cases s <;> simp [Symbol.text, Unquoted]

theorem unquoted_name {cs : List Char} (h : cs.all Text.continuesName = true) : Unquoted cs := by
  intro c hc
  have hname := List.all_eq_true.mp h c hc
  constructor <;> rintro rfl <;> exact absurd hname (by decide)

theorem unquoted_numeral (cs : List Char) : Unquoted (numeral cs) := by
  fun_induction numeral cs with
  | case1 => simp [Unquoted]
  | case2 c cs hc ih =>
    refine List.forall_mem_cons.mpr ⟨?_, ih⟩
    constructor <;> rintro rfl <;> simp at hc
  | case3 => simp [Unquoted]

theorem numeral_append (cs : List Char) : numeral cs ++ (afterNumeral cs).val = cs := by
  unfold afterNumeral NotLonger.drop
  fun_induction numeral cs with
  | case1 => rfl
  | case2 c cs hc ih => simpa using ih
  | case3 => rfl

theorem Unquoted.after_append {front : List Char} (h : Unquoted front) (cs : List Char) :
    Mode.plain.after (front ++ cs) = Mode.plain.after cs := by
  rw [Mode.after_append, Mode.plain_after h]

-- A token closes the quotes that it opens.
theorem readToken_eq_ok {source : String} {c : Char} {rest : List Char} {token : Token}
    {after : NotLonger rest} (h : readToken source c rest = .ok (token, after)) :
    Mode.plain.after (c :: rest) = Mode.plain.after after.val := by
  have hname : Mode.plain.after rest = Mode.plain.after (afterName rest).val := by
    have hunquoted : Unquoted (rest.takeWhile Text.continuesName) := unquoted_name List.all_takeWhile
    have hsplit := hunquoted.after_append (rest.dropWhile Text.continuesName)
    rwa [List.takeWhile_append_dropWhile] at hsplit
  have hnumeral : Mode.plain.after rest = Mode.plain.after (afterNumeral rest).val := by
    have hsplit := (unquoted_numeral rest).after_append (afterNumeral rest).val
    rwa [numeral_append] at hsplit
  unfold readToken at h
  simp only [Bool.or_eq_true, decide_eq_true_eq] at h
  split at h
  · next hquote =>
    split at h
    · cases h
    · next content after hcontent =>
      cases h
      simpa [Mode.next, hquote] using readString_eq_some hcontent
  · next hquote =>
    rw [not_or] at hquote
    rw [Mode.after_cons, Mode.plain_next hquote.1 hquote.2]
    split at h
    · split at h
      · cases h
      · cases h
        exact hnumeral
    · split at h
      · split at h
        · cases h
        · cases h
          exact hname
      · split at h
        · cases h
          exact hname
        · split at h
          · cases h
          · next s last hsymbol =>
            cases h
            have hsplit := (unquoted_symbol s).after_append last.val
            rwa [← readSymbol_eq_some hsymbol, Mode.after_cons,
              Mode.plain_next hquote.1 hquote.2] at hsplit

theorem readToken_unterminated {source shown : String} {c : Char} {rest : List Char}
    (h : readToken source c rest = .error (.unterminatedString shown)) :
    Mode.plain.after (c :: rest) ≠ .plain := by
  unfold readToken at h
  simp only [Bool.or_eq_true, decide_eq_true_eq] at h
  split at h
  · next hquote =>
    split at h
    · next hnone => simpa [Mode.next, hquote] using readString_eq_none hnone
    · cases h
  · exfalso
    repeat' split at h
    all_goals cases h

theorem readTokens_unterminated {source shown : String} {cs : List Char}
    (h : readTokens source cs = .error (.unterminatedString shown)) : ¬Quoted cs := by
  fun_induction readTokens source cs with
  | case1 => cases h
  | case2 c rest hblank ih =>
    have hquote : c ≠ '\'' ∧ c ≠ '"' := by constructor <;> rintro rfl <;> exact absurd hblank (by decide)
    unfold Quoted
    rw [Mode.after_cons, Mode.plain_next hquote.1 hquote.2]
    exact ih h
  | case3 c rest hblank fault htoken =>
    cases h
    exact readToken_unterminated htoken
  | case4 c rest hblank token after htoken _ ih =>
    unfold Quoted
    rw [readToken_eq_ok htoken]
    cases hrest : readTokens source after.val with
    | error fault =>
      rw [hrest] at h
      obtain rfl := Except.error.inj h
      exact ih hrest
    | ok tokens =>
      rw [hrest] at h
      cases h

theorem readAttribute_unterminated {target : Expr} {ts : List Token} {shown : String} :
    readAttribute target ts ≠ .error (.unterminatedString shown) := by
  intro h
  unfold readAttribute at h
  split at h
  · cases h
  · cases h
  · split at h <;> cases h
  · cases h

theorem closedBy_eq_error {s : Symbol} {missing fault : Fault} {ts : List Token}
    (h : closedBy s missing ts = .error fault) : fault = missing := by
  unfold closedBy at h
  split at h
  · split at h <;> cases h
    rfl
  · cases h
    rfl

mutual

-- Only the reader of tokens finds strings without an end, not the grammar.
theorem readLevel_unterminated (level : Nat) (ts : List Token) (shown : String) :
    readLevel level ts ≠ .error (.unterminatedString shown) := by
  intro h
  rw [readLevel] at h
  split at h
  · split at h
    · next fault hleft =>
      cases h
      exact readLevel_unterminated (level + 1) ts shown hleft
    · next left rest hleft =>
      have := rest.property
      split at h
      · next fault hmore =>
        cases h
        exact readOperators_unterminated level left rest.val shown hmore
      · cases h
  · exact readPrefixed_unterminated ts shown h
termination_by 16 * ts.length + 9 - min level 6
decreasing_by all_goals (simp only [operandLevel] at *; omega)

theorem readOperators_unterminated (level : Nat) (left : Expr) :
    ∀ (ts : List Token) (shown : String),
      readOperators level left ts ≠ .error (.unterminatedString shown)
  | [], _ => by simp [readOperators]
  | t :: rest, shown => by
    intro h
    rw [readOperators] at h
    split at h
    · cases h
    · split at h
      · next fault hright =>
        cases h
        exact readLevel_unterminated (level + 1) rest shown hright
      · next right after hright =>
        have := after.property
        split at h
        · cases h
        · split at h
          · next fault hmore =>
            cases h
            exact readOperators_unterminated level _ after.val shown hmore
          · cases h
termination_by ts => 16 * ts.length
decreasing_by all_goals (simp only [List.length_cons] at *; omega)

theorem readPrefixed_unterminated :
    ∀ (ts : List Token) (shown : String), readPrefixed ts ≠ .error (.unterminatedString shown)
  | [], _ => by simp [readPrefixed]
  | t :: rest, shown => by
    intro h
    rw [readPrefixed] at h
    split at h
    · split at h
      · next fault hoperand =>
        cases h
        exact readPrefixed_unterminated rest shown hoperand
      · cases h
    · exact readSuffixed_unterminated (t :: rest) shown h
termination_by ts => 16 * ts.length + 2
decreasing_by all_goals (simp only [List.length_cons] at *; omega)

theorem readSuffixed_unterminated (ts : List Token) (shown : String) :
    readSuffixed ts ≠ .error (.unterminatedString shown) := by
  intro h
  rw [readSuffixed] at h
  split at h
  · next fault hprimary =>
    cases h
    exact readPrimary_unterminated ts shown hprimary
  · next e rest hprimary =>
    have := rest.property
    split at h
    · next fault hmore =>
      cases h
      exact readSuffixes_unterminated e rest.val shown hmore
    · cases h
termination_by 16 * ts.length + 1
decreasing_by all_goals omega

theorem readSuffixes_unterminated (target : Expr) :
    ∀ (ts : List Token) (shown : String), readSuffixes target ts ≠ .error (.unterminatedString shown)
  | [], _ => by simp [readSuffixes]
  | t :: rest, shown => by
    intro h
    rw [readSuffixes.eq_def] at h
    dsimp only at h
    split at h
    · split at h
      · next fault hattribute =>
        cases h
        exact readAttribute_unterminated hattribute
      · next e after hattribute =>
        have := after.property
        split at h
        · next fault hmore =>
          cases h
          exact readSuffixes_unterminated e after.val shown hmore
        · cases h
    · split at h
      · next fault hkey =>
        cases h
        exact readLevel_unterminated 0 rest shown hkey
      · next key after hkey =>
        have := after.property
        split at h
        · next fault hclosed =>
          cases h
          cases closedBy_eq_error hclosed
        · next more hclosed =>
          have := more.property
          split at h
          · next fault hmore =>
            cases h
            exact readSuffixes_unterminated _ more.val shown hmore
          · cases h
    · cases h
termination_by ts => 16 * ts.length
decreasing_by all_goals (simp only [List.length_cons] at *; omega)

theorem readPrimary_unterminated :
    ∀ (ts : List Token) (shown : String), readPrimary ts ≠ .error (.unterminatedString shown)
  | [], _ => by simp [readPrimary]
  | t :: rest, shown => by
    intro h
    rw [readPrimary.eq_def] at h
    dsimp only at h
    split at h
    · cases h
    · cases h
    · cases h
    · cases h
    · split at h
      · next fault hinner =>
        cases h
        exact readLevel_unterminated 0 rest shown hinner
      · split at h
        · next fault hclosed =>
          cases h
          cases closedBy_eq_error hclosed
        · cases h
    · cases h
termination_by ts => 16 * ts.length
decreasing_by all_goals (simp only [List.length_cons] at *; omega)

end

-- A text that closes its quotes is never read as one with an open string.
theorem read_of_quoted {text : String} (h : Quoted text.toList) (shown : String) :
    read text ≠ .error (.unterminatedString shown) := by
  intro hread
  unfold read at hread
  split at hread
  · next fault htokens =>
    cases hread
    exact readTokens_unterminated htokens h
  · cases hread
  · split at hread
    · next fault hlevel =>
      cases hread
      exact readLevel_unterminated 0 _ shown hlevel
    · cases hread
    · cases hread

end TemplateEngine.Expr
