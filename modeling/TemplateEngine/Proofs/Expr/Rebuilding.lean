import Mathlib.Tactic.IntervalCases
import TemplateEngine.Proofs.Expr.Lexing

-- Expressions are printed with no parentheses but those that the levels of the grammar ask for, and
-- read back as they were.
namespace TemplateEngine

-- The level of the grammar that reads an operator.
def Operator.level : Operator → Nat
  | or => 0
  | and => 1
  | eq | ne | lt | gt | le | ge => Expr.comparisonLevel
  | concat => 3
  | add | sub => 4
  | mul | div | rem => 5

-- A chain leans left, so the left operand may have the operator's own level, but not in a comparison.
def Operator.leftLevel (op : Operator) : Nat :=
  if op.level = Expr.comparisonLevel then op.level + 1 else op.level

namespace Expr

def suffixLevel : Nat := operandLevel + 1

-- The tightest level of the grammar that reads an expression as it stands.
def level : Expr → Nat
  | .binary op _ _ => op.level
  | .not _ | .negate _ => operandLevel
  | .attribute _ _ | .index _ _ | .literal _ | .named _ => suffixLevel

def either (style : Style) : Lexeme := if style.words then .word "or" else .symbol .either

def both (style : Style) : Lexeme := if style.words then .word "and" else .symbol .both

def negation (style : Style) : Lexeme := if style.words then .word "not" else .symbol .bang

def operatorLexeme (style : Style) : Operator → Lexeme
  | .or => either style
  | .and => both style
  | .eq => .symbol .equal
  | .ne => .symbol .unequal
  | .lt => .symbol .less
  | .gt => .symbol .greater
  | .le => .symbol .atMost
  | .ge => .symbol .atLeast
  | .concat => .symbol .tilde
  | .add => .symbol .plus
  | .sub => .symbol .minus
  | .mul => .symbol .times
  | .div => .symbol .slash
  | .rem => .symbol .percent

-- Only the literals that can be written are of interest.
def literalLexeme : Value → Lexeme
  | .bool b => .word (if b then "true" else "false")
  | .string s => .string s
  | .number (.integer n) => .numeral n.toNat
  | _ => .word "null"

-- Parentheses go around an expression where a tighter one is expected.
def enclosed (expected : Nat) (e : Expr) (lexemes : List Lexeme) : List Lexeme :=
  if e.level < expected then .symbol .openParen :: (lexemes ++ [.symbol .closeParen]) else lexemes

def lexemes (style : Style) : Expr → List Lexeme
  | .literal v => [literalLexeme v]
  | .named name => [.variableName name]
  | .attribute target name =>
    enclosed suffixLevel target (lexemes style target) ++ [.symbol .dot, .variableName name]
  | .index target key =>
    enclosed suffixLevel target (lexemes style target) ++
      .symbol .openBracket :: (lexemes style key ++ [.symbol .closeBracket])
  | .not operand => negation style :: enclosed operandLevel operand (lexemes style operand)
  | .negate operand => .symbol .minus :: enclosed operandLevel operand (lexemes style operand)
  | .binary op left right =>
    enclosed op.leftLevel left (lexemes style left) ++
      operatorLexeme style op :: enclosed (op.level + 1) right (lexemes style right)

def print (style : Style) (e : Expr) : String := String.ofList (spaced style (lexemes style e))

def PrintableLiteral : Value → Prop
  | .null | .bool _ | .string _ => True
  | .number (.integer n) => 0 ≤ n ∧ n < 9000000000000000
  | _ => False

def Printable : Expr → Prop
  | .literal v => PrintableLiteral v
  | .named name => Named name
  | .attribute target name => target.Printable ∧ Named name
  | .index target key => target.Printable ∧ key.Printable
  | .not operand | .negate operand => operand.Printable
  | .binary _ left right => left.Printable ∧ right.Printable

instance decidablePrintableLiteral : (v : Value) → Decidable (PrintableLiteral v)
  | .null | .bool _ | .string _ => inferInstanceAs (Decidable True)
  | .number (.integer n) => inferInstanceAs (Decidable (0 ≤ n ∧ n < 9000000000000000))
  | .number (.double _) | .array _ | .object _ => inferInstanceAs (Decidable False)

instance decidablePrintable : (e : Expr) → Decidable e.Printable
  | .literal v => decidablePrintableLiteral v
  | .named name => inferInstanceAs (Decidable (Named name))
  | .attribute target name =>
    have := decidablePrintable target
    inferInstanceAs (Decidable (target.Printable ∧ Named name))
  | .index target key =>
    have := decidablePrintable target
    have := decidablePrintable key
    inferInstanceAs (Decidable (target.Printable ∧ key.Printable))
  | .not operand | .negate operand => decidablePrintable operand
  | .binary _ left right =>
    have := decidablePrintable left
    have := decidablePrintable right
    inferInstanceAs (Decidable (left.Printable ∧ right.Printable))

-- What a reader gives, without the proof that its rest is short enough.
def bare {P : List Token → Prop} (x : Except Fault (Expr × Subtype P)) :
    Except Fault (Expr × List Token) :=
  x.map fun (e, rest) => (e, rest.val)

-- What a level of the grammar reads behind its first operand: its operators, or behind the tightest
-- operand the suffixes.
def readMore (level : Nat) (e : Expr) (ts : List Token) : Except Fault (Expr × List Token) :=
  if level ≤ operandLevel then bare (readOperators level e ts) else bare (readSuffixes e ts)

-- At this level and at all tighter ones the reader goes no further.
def Stops (level : Nat) (rest : List Token) : Prop :=
  ∀ k, level ≤ k → k ≤ suffixLevel → ∀ e, readMore k e rest = .ok (e, rest)

-- A level reads these tokens as an expression, and then goes on from it.
def Leads (level : Nat) (ts : List Token) (e : Expr) : Prop :=
  ∀ rest, Stops (level + 1) rest → bare (readLevel level (ts ++ rest)) = readMore level e rest

-- A level reads these tokens as an expression, if nothing follows that it could go on with.
def Whole (level : Nat) (ts : List Token) (e : Expr) : Prop :=
  ∀ rest, Stops level rest → bare (readLevel level (ts ++ rest)) = .ok (e, rest)

-- A comparison is the one kind of expression whose level cannot go on from it.
structure Fits (level : Nat) (ts : List Token) (e : Expr) : Prop where
  whole : Whole level ts e
  leads : level ≠ comparisonLevel → Leads level ts e

section Levels

variable {j k : Nat} {e left right : Expr} {t : Token} {ts rest : List Token}

theorem exists_of_bare {P : List Token → Prop} {x : Except Fault (Expr × Subtype P)}
    (h : bare x = .ok (e, rest)) : ∃ after, x = .ok (e, after) ∧ after.val = rest := by
  cases x with
  | error fault => cases h
  | ok result =>
    cases h
    exact ⟨result.2, rfl, rfl⟩

theorem operatorAt_tight (hk : operandLevel ≤ k) (t : Token) : operatorAt k t = none := by
  unfold operatorAt operandLevel at *
  split <;> first | rfl | omega

theorem readOperators_nil (k : Nat) (e : Expr) : bare (readOperators k e []) = .ok (e, []) := by
  rw [readOperators]
  rfl

theorem readOperators_none (ht : operatorAt k t = none) (e : Expr) (rest : List Token) :
    bare (readOperators k e (t :: rest)) = .ok (e, t :: rest) := by
  rw [readOperators, ht]
  rfl

-- The right operand of an operator is read one level up, and unless the operator is a comparison
-- the chain goes on from both.
theorem readOperators_some {op : Operator} (ht : operatorAt k t = some op)
    (hright : bare (readLevel (k + 1) ts) = .ok (right, rest)) (left : Expr) :
    bare (readOperators k left (t :: ts)) =
      if k = comparisonLevel then .ok (.binary op left right, rest)
      else bare (readOperators k (.binary op left right) rest) := by
  obtain ⟨after, hafter, rfl⟩ := exists_of_bare hright
  rw [readOperators]
  simp only [ht, hafter]
  split
  · rfl
  · cases readOperators k (.binary op left right) after.val <;> rfl

theorem readMore_operandLevel (e : Expr) (ts : List Token) : readMore operandLevel e ts = .ok (e, ts) := by
  unfold readMore
  rw [if_pos (Nat.le_refl _)]
  cases ts with
  | nil => exact readOperators_nil _ e
  | cons t rest => exact readOperators_none (operatorAt_tight (Nat.le_refl _) t) e rest

theorem readLevel_tight (hk : operandLevel ≤ k) (ts : List Token) : readLevel k ts = readPrefixed ts := by
  rw [readLevel, if_neg (Nat.not_lt.mpr hk)]

-- Each level reads an operand of the next one and goes on from it.
theorem readLevel_next (hk : k ≤ operandLevel) (ts : List Token) :
    bare (readLevel k ts) = (bare (readLevel (k + 1) ts)).bind fun (e, rest) => readMore k e rest := by
  rcases Nat.lt_or_eq_of_le hk with hlt | rfl
  · conv_lhs => rw [readLevel, if_pos hlt]
    cases readLevel (k + 1) ts with
    | error fault => rfl
    | ok operand =>
      change _ = readMore k operand.1 operand.2.val
      rw [readMore, if_pos hk]
      cases hmore : readOperators k operand.1 operand.2.val <;> simp only [hmore] <;> rfl
  · rw [readLevel_tight (Nat.le_refl _), readLevel_tight (Nat.le_succ _)]
    cases readPrefixed ts with
    | error fault => rfl
    | ok result => exact (readMore_operandLevel result.1 result.2.val).symm

theorem readLevel_unary {make : Expr → Expr} (ht : unaryAt t = some make)
    (hread : bare (readLevel operandLevel ts) = .ok (e, rest)) :
    bare (readLevel operandLevel (t :: ts)) = .ok (make e, rest) := by
  rw [readLevel_tight (Nat.le_refl _)] at hread ⊢
  obtain ⟨after, hafter, rfl⟩ := exists_of_bare hread
  rw [readPrefixed]
  simp only [ht, hafter]
  rfl

theorem readLevel_primary (ht : unaryAt t = none) (hread : bare (readPrimary (t :: ts)) = .ok (e, rest)) :
    bare (readLevel suffixLevel (t :: ts)) = readMore suffixLevel e rest := by
  obtain ⟨after, hafter, rfl⟩ := exists_of_bare hread
  rw [suffixLevel, readLevel_tight (Nat.le_succ _), readPrefixed]
  simp only [ht]
  change bare (readSuffixed (t :: ts)) = bare (readSuffixes e after.val)
  rw [readSuffixed]
  simp only [hafter]
  cases hmore : readSuffixes e after.val <;> rfl

theorem readPrimary_enclosed (hread : bare (readLevel 0 ts) = .ok (e, .symbol .closeParen :: rest)) :
    bare (readPrimary (.symbol .openParen :: ts)) = .ok (e, rest) := by
  obtain ⟨⟨_, hshort⟩, hafter, rfl⟩ := exists_of_bare hread
  rw [readPrimary]
  simp only [hafter]
  rfl

theorem readMore_attribute (target : Expr) (name : String) (rest : List Token) :
    readMore suffixLevel target (.symbol .dot :: .variableName name :: rest) =
      readMore suffixLevel (.attribute target name) rest := by
  change bare (readSuffixes _ _) = bare (readSuffixes _ _)
  conv_lhs => rw [readSuffixes]
  simp only [readAttribute]
  cases hmore : readSuffixes (.attribute target name) rest <;> simp only [Shorter.val_tail, hmore] <;> rfl

theorem readMore_index {key : Expr}
    (hread : bare (readLevel 0 ts) = .ok (key, .symbol .closeBracket :: rest)) (target : Expr) :
    readMore suffixLevel target (.symbol .openBracket :: ts) =
      readMore suffixLevel (.index target key) rest := by
  obtain ⟨⟨_, hshort⟩, hafter, rfl⟩ := exists_of_bare hread
  change bare (readSuffixes _ _) = bare (readSuffixes _ _)
  conv_lhs => rw [readSuffixes]
  simp only [hafter, closedBy, if_true]
  cases hmore : readSuffixes (.index target key) rest <;> simp only [Shorter.val_tail, hmore] <;> rfl

theorem stops_nil (k : Nat) : Stops k [] := by
  intro k _ _ e
  unfold readMore
  split
  · exact readOperators_nil k e
  · rw [readSuffixes]
    rfl

theorem stops_cons (hoperators : ∀ j, k ≤ j → operatorAt j t = none) (hdot : t ≠ .symbol .dot)
    (hbracket : t ≠ .symbol .openBracket) (rest : List Token) : Stops k (t :: rest) := by
  intro j hj _ e
  unfold readMore
  split
  · exact readOperators_none (hoperators j hj) e rest
  · rw [readSuffixes]
    · rfl
    · exact hdot
    · exact hbracket

theorem Stops.mono (h : Stops k rest) (hj : k ≤ j) : Stops j rest :=
  fun i hi => h i (Nat.le_trans hj hi)

theorem stops_closing {s : Symbol} (hs : s = .closeParen ∨ s = .closeBracket) (k : Nat)
    (rest : List Token) : Stops k (.symbol s :: rest) := by
  have hoperator : ∀ j, operatorAt j (.symbol s) = none := by
    intro j
    unfold operatorAt
    rcases hs with rfl | rfl <;> split <;> first | rfl | simp_all
  refine stops_cons (fun j _ => hoperator j) ?_ ?_ rest
  all_goals rcases hs with rfl | rfl <;> simp

theorem operatorAt_level (style : Style) (op : Operator) :
    operatorAt op.level (operatorLexeme style op).token = some op := by
  obtain ⟨words, doubled⟩ := style
  cases op <;> cases words <;> rfl

theorem operatorAt_above (style : Style) {op : Operator} (hk : op.level < k) :
    operatorAt k (operatorLexeme style op).token = none := by
  obtain ⟨words, doubled⟩ := style
  rcases Nat.lt_or_ge k operandLevel with hlt | hge
  · unfold operandLevel at hlt
    interval_cases k <;> cases op <;> cases words <;> first | rfl | contradiction
  · exact operatorAt_tight hge _

-- No tighter level goes on over an operator.
theorem stops_operator (style : Style) {op : Operator} (hk : op.level < k) (rest : List Token) :
    Stops k ((operatorLexeme style op).token :: rest) := by
  refine stops_cons (fun j hj => operatorAt_above style (Nat.lt_of_lt_of_le hk hj)) ?_ ?_ rest
  all_goals
    obtain ⟨words, doubled⟩ := style
    cases op <;> cases words <;> simp [operatorLexeme, either, both, Lexeme.token]

theorem Leads.whole (h : Leads k ts e) (hk : k ≤ suffixLevel) : Whole k ts e :=
  fun rest hstops => (h rest (hstops.mono (Nat.le_succ k))).trans (hstops k (Nat.le_refl k) hk e)

theorem Whole.leads (h : Whole (k + 1) ts e) (hk : k ≤ operandLevel) : Leads k ts e := by
  intro rest hstops
  rw [readLevel_next hk, h rest hstops]
  rfl

theorem Leads.fits (h : Leads k ts e) (hk : k ≤ suffixLevel) : Fits k ts e := ⟨h.whole hk, fun _ => h⟩

-- What a level reads, every looser level reads too.
theorem Fits.loosen (h : Fits k ts e) (hk : k ≤ suffixLevel) (hj : j ≤ k) : Fits j ts e := by
  induction hj with
  | refl => exact h
  | @step k _ ih =>
    have hoperand : k ≤ operandLevel := Nat.le_of_succ_le_succ hk
    have hle : k ≤ suffixLevel := Nat.le_succ_of_le hoperand
    exact ih ((h.whole.leads hoperand).fits hle) hle

-- Suffixes are read whatever follows them.
theorem fits_suffix (h : ∀ rest, bare (readLevel suffixLevel (ts ++ rest)) = readMore suffixLevel e rest) :
    Fits suffixLevel ts e :=
  Leads.fits (fun rest _ => h rest) (Nat.le_refl _)

theorem Fits.readLevel (h : Fits suffixLevel ts e) (rest : List Token) :
    bare (Expr.readLevel suffixLevel (ts ++ rest)) = readMore suffixLevel e rest := by
  refine h.leads (by decide) rest fun k hk hle => ?_
  exact absurd hle (Nat.not_le.mpr hk)

theorem fits_primary (ht : unaryAt t = none)
    (hread : ∀ rest, bare (readPrimary (t :: ts ++ rest)) = .ok (e, rest)) : Fits suffixLevel (t :: ts) e :=
  fits_suffix fun rest => readLevel_primary ht (hread rest)

theorem fits_parentheses (h : Whole 0 ts e) :
    Fits suffixLevel (.symbol .openParen :: (ts ++ [.symbol .closeParen])) e := by
  refine fits_primary rfl fun rest => readPrimary_enclosed ?_
  change bare (readLevel 0 ((ts ++ [.symbol .closeParen]) ++ rest)) = _
  rw [List.append_assoc]
  exact h _ (stops_closing (.inl rfl) 0 rest)

theorem fits_attribute (h : Fits suffixLevel ts e) (name : String) :
    Fits suffixLevel (ts ++ [.symbol .dot, .variableName name]) (.attribute e name) := by
  refine fits_suffix fun rest => ?_
  rw [List.append_assoc, h.readLevel]
  exact readMore_attribute e name rest

theorem fits_index {key : Expr} {keyTokens : List Token} (h : Fits suffixLevel ts e)
    (hkey : Whole 0 keyTokens key) :
    Fits suffixLevel (ts ++ .symbol .openBracket :: (keyTokens ++ [.symbol .closeBracket])) (.index e key) := by
  refine fits_suffix fun rest => ?_
  rw [List.append_assoc, h.readLevel]
  refine readMore_index ?_ e
  change bare (readLevel 0 ((keyTokens ++ [.symbol .closeBracket]) ++ rest)) = _
  rw [List.append_assoc]
  exact hkey _ (stops_closing (.inr rfl) 0 rest)

theorem fits_unary {make : Expr → Expr} (ht : unaryAt t = some make) (h : Fits operandLevel ts e) :
    Fits operandLevel (t :: ts) (make e) := by
  refine Leads.fits (fun rest hstops => ?_) (Nat.le_succ _)
  have hoperand := h.leads (by decide) rest hstops
  rw [readMore_operandLevel] at hoperand ⊢
  exact readLevel_unary ht hoperand

theorem level_le (op : Operator) : op.level < operandLevel := by
  cases op <;> decide

-- The left operand is followed by the operator, which only the operator's own level reads.
theorem readLevel_left (style : Style) (op : Operator) (h : Fits op.leftLevel ts left) (rest : List Token) :
    bare (readLevel op.level (ts ++ (operatorLexeme style op).token :: rest)) =
      bare (readOperators op.level left ((operatorLexeme style op).token :: rest)) := by
  have hmore : readMore op.level left ((operatorLexeme style op).token :: rest) =
      bare (readOperators op.level left ((operatorLexeme style op).token :: rest)) :=
    if_pos (Nat.le_of_lt (level_le op))
  have hstops := stops_operator style (Nat.lt_succ_self op.level) rest
  rw [← hmore]
  unfold Operator.leftLevel at h
  split at h
  · exact h.whole.leads (Nat.le_of_lt (level_le op)) _ hstops
  · next hne => exact h.leads hne _ hstops

theorem fits_binary (style : Style) (op : Operator) {rightTokens : List Token}
    (hleft : Fits op.leftLevel ts left) (hright : Fits (op.level + 1) rightTokens right) :
    Fits op.level (ts ++ (operatorLexeme style op).token :: rightTokens) (.binary op left right) := by
  have hoperator := operatorAt_level style op
  -- What comes after the right operand is no part of it.
  have hread : ∀ rest, Stops (op.level + 1) rest →
      bare (readLevel op.level ((ts ++ (operatorLexeme style op).token :: rightTokens) ++ rest)) =
        if op.level = comparisonLevel then .ok (.binary op left right, rest)
        else bare (readOperators op.level (.binary op left right) rest) := by
    intro rest hstops
    rw [List.append_assoc, List.cons_append, readLevel_left style op hleft]
    exact readOperators_some hoperator (hright.whole rest hstops) left
  by_cases hcomparison : op.level = comparisonLevel
  · refine ⟨fun rest hstops => ?_, fun hne => absurd hcomparison hne⟩
    rw [hread rest (hstops.mono (Nat.le_succ _)), if_pos hcomparison]
  · refine Leads.fits (fun rest hstops => ?_) (Nat.le_succ_of_le (Nat.le_of_lt (level_le op)))
    rw [hread rest hstops, if_neg hcomparison, readMore, if_pos (Nat.le_of_lt (level_le op))]

-- What a text is read as, its tokens being known.
theorem read_of_tokens {source : String} (htokens : readTokens source source.toList = .ok (t :: ts)) :
    read source = (bare (readLevel 0 (t :: ts))).bind
      fun (e, rest) => if rest.isEmpty then .ok e else .error (.trailing source) := by
  unfold read
  rw [htokens]
  dsimp only
  cases readLevel 0 (t :: ts) with
  | error fault => rfl
  | ok result =>
    obtain ⟨e, ⟨_ | ⟨u, rest⟩, hshort⟩⟩ := result <;> rfl

end Levels

section Printing

variable {style : Style}

theorem level_le_suffixLevel (e : Expr) : e.level ≤ suffixLevel := by
  unfold level
  split
  · next op _ _ => exact Nat.le_succ_of_le (Nat.le_of_lt (level_le op))
  · exact Nat.le_succ _
  · exact Nat.le_succ _
  all_goals exact Nat.le_refl _

theorem leftLevel_le (op : Operator) : op.leftLevel ≤ suffixLevel := by
  cases op <;> decide

-- An expression that is not tight enough for its place is tight enough with parentheses.
theorem fits_enclosed {expected : Nat} {e : Expr} {ls : List Lexeme} (hexpected : expected ≤ suffixLevel)
    (he : Fits e.level (ls.map Lexeme.token) e) :
    Fits expected ((enclosed expected e ls).map Lexeme.token) e := by
  unfold enclosed
  split
  · have hwhole := (he.loosen (level_le_suffixLevel e) (Nat.zero_le _)).whole
    simp only [List.map_cons, List.map_append, List.map_nil]
    exact (fits_parentheses hwhole).loosen (Nat.le_refl _) hexpected
  · next hlevel => exact he.loosen (level_le_suffixLevel e) (Nat.le_of_not_lt hlevel)

theorem readPrimary_literal {v : Value} (hv : PrintableLiteral v) (rest : List Token) :
    bare (readPrimary ((literalLexeme v).token :: rest)) = .ok (.literal v, rest) := by
  rw [readPrimary.eq_def]
  match v, hv with
  | .null, _ => rfl
  | .bool true, _ => rfl
  | .bool false, _ => rfl
  | .string s, _ => rfl
  | .number (.integer n), ⟨hzero, hlt⟩ =>
    have hnumber : Value.ofFloat (Decimal.nearest n.toNat 0) = .number (.integer n) := by
      rw [Decimal.ofFloat_nearest (by omega), Value.natural, Int.toNat_of_nonneg hzero]
    exact congrArg (fun v => Except.ok (Expr.literal v, rest)) hnumber

theorem unaryAt_literal {v : Value} (hv : PrintableLiteral v) : unaryAt (literalLexeme v).token = none := by
  match v, hv with
  | .null, _ => rfl
  | .bool true, _ => rfl
  | .bool false, _ => rfl
  | .string _, _ => rfl
  | .number (.integer _), _ => rfl

-- What is printed from an expression fits the level of the expression, one case for each constructor.
-- A part that is too loose for its place has parentheses there.
theorem fits_lexemes : ∀ {e : Expr}, e.Printable → Fits e.level ((lexemes style e).map Lexeme.token) e
  | .literal v, he => fits_primary (unaryAt_literal he) (readPrimary_literal he)
  | .named name, _ => fits_primary rfl fun rest => by rw [readPrimary.eq_def]; rfl
  | .attribute target name, he => by
    rw [lexemes, List.map_append]
    exact fits_attribute (fits_enclosed (Nat.le_refl _) (fits_lexemes he.1)) name
  | .index target key, he => by
    have hkey := ((fits_lexemes he.2).loosen (level_le_suffixLevel key) (Nat.zero_le _)).whole
    simp only [lexemes, List.map_append, List.map_cons, List.map_nil]
    exact fits_index (fits_enclosed (Nat.le_refl _) (fits_lexemes he.1)) hkey
  | .not operand, he => by
    rw [lexemes, List.map_cons]
    refine fits_unary ?_ (fits_enclosed (Nat.le_succ _) (fits_lexemes he))
    obtain ⟨words, doubled⟩ := style
    cases words <;> rfl
  | .negate operand, he => by
    rw [lexemes, List.map_cons]
    exact fits_unary rfl (fits_enclosed (Nat.le_succ _) (fits_lexemes he))
  | .binary op left right, he => by
    rw [lexemes, List.map_append, List.map_cons]
    have hright : op.level + 1 ≤ suffixLevel := Nat.le_succ_of_le (level_le op)
    exact fits_binary style op (fits_enclosed (leftLevel_le op) (fits_lexemes he.1))
      (fits_enclosed hright (fits_lexemes he.2))

theorem printable_literal (v : Value) : (literalLexeme v).Printable := by
  have hwords : ∀ word ∈ ["null", "true", "false"], word ∈ reserved := by decide
  unfold literalLexeme
  split
  · next b => cases b <;> exact hwords _ (by decide)
  · trivial
  · trivial
  · exact hwords _ (by decide)

theorem printable_operator (style : Style) (op : Operator) : (operatorLexeme style op).Printable := by
  obtain ⟨words, doubled⟩ := style
  cases op <;> cases words <;> simp [operatorLexeme, either, both, Lexeme.Printable, reserved]

theorem printable_negation (style : Style) : (negation style).Printable := by
  obtain ⟨words, doubled⟩ := style
  cases words <;> simp [negation, Lexeme.Printable, reserved]

theorem printable_enclosed {ls : List Lexeme} (hls : ∀ l ∈ ls, l.Printable) (expected : Nat) (e : Expr) :
    ∀ l ∈ enclosed expected e ls, l.Printable := by
  unfold enclosed
  split
  · exact List.forall_mem_cons.mpr ⟨trivial, List.forall_mem_append.mpr ⟨hls, by simp [Lexeme.Printable]⟩⟩
  · exact hls

theorem printable_lexemes : ∀ {e : Expr}, e.Printable → ∀ l ∈ lexemes style e, l.Printable
  | .literal v, _ => List.forall_mem_singleton.mpr (printable_literal v)
  | .named _, he => List.forall_mem_singleton.mpr he
  | .attribute target name, he => by
    have hsuffix : ∀ l ∈ [Lexeme.symbol .dot, .variableName name], l.Printable := by
      simp [Lexeme.Printable, he.2]
    exact List.forall_mem_append.mpr ⟨printable_enclosed (printable_lexemes he.1) _ target, hsuffix⟩
  | .index target key, he => by
    have hsuffix : ∀ l ∈ .symbol .openBracket :: (lexemes style key ++ [.symbol .closeBracket]), l.Printable :=
      List.forall_mem_cons.mpr ⟨trivial, List.forall_mem_append.mpr
        ⟨printable_lexemes he.2, by simp [Lexeme.Printable]⟩⟩
    exact List.forall_mem_append.mpr ⟨printable_enclosed (printable_lexemes he.1) _ target, hsuffix⟩
  | .not operand, he => List.forall_mem_cons.mpr
      ⟨printable_negation style, printable_enclosed (printable_lexemes (e := operand) he) _ operand⟩
  | .negate operand, he => List.forall_mem_cons.mpr
      ⟨trivial, printable_enclosed (printable_lexemes (e := operand) he) _ operand⟩
  | .binary op left right, he => List.forall_mem_append.mpr
      ⟨printable_enclosed (printable_lexemes he.1) _ left, List.forall_mem_cons.mpr
        ⟨printable_operator style op, printable_enclosed (printable_lexemes he.2) _ right⟩⟩

-- What is printed from an expression is read as that expression.
theorem read_print (style : Style) {e : Expr} (he : e.Printable) : read (print style e) = .ok e := by
  have htokens : readTokens (print style e) (print style e).toList =
      .ok ((lexemes style e).map Lexeme.token) := by
    conv_lhs => rw [print, String.toList_ofList]
    exact readTokens_spaced _ (printable_lexemes he)
  have hfits : Fits e.level ((lexemes style e).map Lexeme.token) e := fits_lexemes he
  have hread := (hfits.loosen (level_le_suffixLevel e) (Nat.zero_le _)).whole [] (stops_nil 0)
  rw [List.append_nil] at hread
  generalize (lexemes style e).map Lexeme.token = ts at htokens hread
  cases ts with
  | nil =>
    obtain ⟨⟨_, hshort⟩, -, rfl⟩ := exists_of_bare hread
    exact absurd hshort (Nat.lt_irrefl _)
  | cons t ts =>
    rw [read_of_tokens htokens, hread]
    rfl

-- Every level once, a chain that leans left and one that does not.
def mixed : Expr :=
  .binary .or
    (.not (.binary .eq
      (.index (.attribute (.named "a") "b")
        (.binary .sub (.binary .sub (.named "x") (.named "y"))
          (.binary .sub (.named "z") (.literal (.natural 1)))))
      (.literal (.string "it's"))))
    (.binary .lt
      (.binary .mul (.negate (.binary .add (.literal (.natural 1)) (.named "c"))) (.literal (.natural 2)))
      (.binary .concat (.named "d") (.literal .null)))

theorem read_print_mixed :
    mixed.Printable ∧
      read "not ( $a . $b [ $x - $y - ( $z - 1 ) ] == 'it\\'s' ) or - ( 1 + $c ) * 2 < $d ~ null" =
        .ok mixed := by
  have hprintable : mixed.Printable := by decide
  have hprint : print ⟨true, false⟩ mixed =
      "not ( $a . $b [ $x - $y - ( $z - 1 ) ] == 'it\\'s' ) or - ( 1 + $c ) * 2 < $d ~ null" := by
    decide +kernel
  rw [← hprint]
  exact ⟨hprintable, read_print ⟨true, false⟩ hprintable⟩

end Printing

end Expr

end TemplateEngine
