import TemplateEngine.Proofs.Expr.Rebuilding
import TemplateEngine.Proofs.Text.Blanks
import TemplateEngine.Render.Machine

-- Positions behind a name, each behind a point or each in brackets. A number is read as far as digits
-- and points go on, so that positions behind points are not told apart, and only one of them alone
-- means what it means in brackets.
namespace TemplateEngine

namespace Decimal

variable {ds es : List Char}

private theorem not_digit_of_point (cs : List Char) : ∀ c ∈ ('.' :: cs).head?, c.isDigit = false := by
  rintro c ⟨⟩
  decide

theorem read_point (hds : ∀ d ∈ ds, d.isDigit = true) (hes : ∀ d ∈ es, d.isDigit = true)
    (hfilled : ds ≠ []) : read (ds ++ '.' :: es) = some (nearest (ofDigits (ds ++ es)) (-(es.length : Int))) := by
  obtain ⟨c, cs, rfl⟩ := List.exists_cons_of_ne_nil hfilled
  have htake : (es ++ []).takeWhile Char.isDigit = es := takeWhile_front hes fun _ h => nomatch h
  have hdrop : (es ++ []).dropWhile Char.isDigit = [] := dropWhile_front hes fun _ h => nomatch h
  rw [List.append_nil] at htake hdrop
  rw [List.cons_append, read_of_digit (hds c (by simp)), ← List.cons_append]
  unfold readUnsigned
  rw [takeWhile_front hds (not_digit_of_point es), dropWhile_front hds (not_digit_of_point es)]
  simp [htake, hdrop]

-- A number has one point at most.
theorem read_points (hds : ∀ d ∈ ds, d.isDigit = true) (hes : ∀ d ∈ es, d.isDigit = true)
    (hfilled : ds ≠ []) (cs : List Char) : read (ds ++ '.' :: (es ++ '.' :: cs)) = none := by
  obtain ⟨d, more, rfl⟩ := List.exists_cons_of_ne_nil hfilled
  rw [List.cons_append, read_of_digit (hds d (by simp)), ← List.cons_append]
  unfold readUnsigned
  rw [takeWhile_front hds (not_digit_of_point _), dropWhile_front hds (not_digit_of_point _)]
  simp [takeWhile_front hes (not_digit_of_point cs), dropWhile_front hes (not_digit_of_point cs)]

end Decimal

namespace Expr

-- The words that are no names where an operand is expected.
def settledWords : List String := ["true", "TRUE", "false", "FALSE", "null", "NULL", "none", "not"]

-- A variable is written with its sigil, or as a word.
inductive Spells (name : String) : List Char → Prop where
  | sigil (hname : Named name) : Spells name ('$' :: name.toList)
  | word (hname : Text.isName name.toList = true) (hword : name ∉ settledWords) : Spells name name.toList

def dots (path : List Nat) : List Char := path.flatMap fun i => '.' :: Nat.toDigits 10 i

def brackets (path : List Nat) : List Char := path.flatMap fun i => '[' :: (Nat.toDigits 10 i ++ [']'])

def dotted (front : List Char) (path : List Nat) : String := String.ofList (front ++ dots path)

def bracketed (front : List Char) (path : List Nat) : String := String.ofList (front ++ brackets path)

-- The element at a path: of what an expression stands for, and of a value.
def elementOf (e : Expr) (path : List Nat) : Expr := path.foldl (fun e i => .index e (.literal (.natural i))) e

def element (v : Value) (path : List Nat) : Value := path.foldl (fun v i => member v (.natural i)) v

-- The double that `i.j` is read as.
def decimal (i j : Nat) : Float :=
  Decimal.nearest (Decimal.ofDigits (Nat.toDigits 10 i ++ Nat.toDigits 10 j))
    (-((Nat.toDigits 10 j).length : Int))

-- What positions behind points are read as: two of them as one number, more of them as none.
def dottedReading (name : String) : List Nat → Except Fault Expr
  | [] => .ok (.named name)
  | [i] => .ok (elementOf (.named name) [i])
  | [i, j] =>
    match position? (decimal i j) with
    | some n => .ok (elementOf (.named name) [n])
    | none => .error .missingAttribute
  | i :: path => .error (.badNumber (String.ofList (Nat.toDigits 10 i ++ dots path)))

-- The value of an expression as it is written.
def valueIn (lookup : String → Option Value) (strict : Bool) (source : String) : Except Failure Value :=
  match read source with
  | .error fault => .error (.invalid fault)
  | .ok e => e.eval lookup strict

section Lexing

variable {name : String} {front rest : List Char} {path : List Nat}

theorem isWordLetter_of_startsName {c : Char} (h : Text.startsName c = true) : isWordLetter c = true := by
  have hcontinues : Text.continuesName c = true := Text.continuesName_of_startsName h
  have hblank : Text.isBlank c = false := Text.not_blank_of_label (by rw [hcontinues, Bool.true_or])
  have hdigit : c.isDigit = false := by
    rw [Bool.eq_false_iff]
    intro hdigit
    have hnot := Decimal.forall_digit (P := fun d => Text.startsName d = false) (by decide) hdigit
    rw [h] at hnot
    cases hnot
  have hmarks : c ≠ '\'' ∧ c ≠ '"' ∧ c ≠ '$' := by
    refine ⟨?_, ?_, ?_⟩ <;> rintro rfl <;> exact absurd h (by decide)
  simp [isWordLetter, h, hcontinues, hblank, hdigit, hmarks]

-- A variable is one token, as long as nothing behind it goes on with its name.
theorem Spells.exists_token (hfront : Spells name front) :
    ∃ t, Fits suffixLevel [t] (.named name) ∧
      ∀ rest : List Char, (∀ c ∈ rest.head?, Text.continuesName c = false) → ReadsAs front t rest := by
  cases hfront with
  | sigil hname =>
    refine ⟨.variableName name, fits_primary rfl fun rest => ?_, fun rest => readsAs_variableName hname⟩
    rw [readPrimary.eq_def]
    rfl
  | word hname hword =>
    simp only [settledWords, List.mem_cons, List.not_mem_nil, or_false, not_or] at hword
    refine ⟨.word name, fits_primary ?_ fun rest => ?_, fun rest => ?_⟩
    · simp [unaryAt, hword]
    · rw [readPrimary.eq_def]
      simp [bare, Except.map, ofWord, hword]
    · cases hletters : name.toList with
      | nil =>
        rw [hletters] at hname
        cases hname
      | cons c cs =>
        rw [hletters, Text.isName, Bool.and_eq_true] at hname
        intro hrest
        have hreads : ReadsAs name.toList (.word name) rest :=
          readsAs_letters hletters (isWordLetter_of_startsName hname.1) hname.2 hrest
        rwa [hletters] at hreads

-- These symbols are read alone whatever follows them.
theorem readsAs_mark {s : Symbol} (hs : s = .dot ∨ s = .openBracket ∨ s = .closeBracket)
    (rest : List Char) : ReadsAs s.text.toList (.symbol s) rest := by
  rcases hs with rfl | rfl | rfl <;> exact ⟨_, [], rfl, by decide, fun source => ⟨_, rfl, rfl⟩⟩

theorem not_continues_flatMap {mark : Char} (hmark : Text.continuesName mark = false)
    (f : Nat → List Char) (path : List Nat) :
    ∀ c ∈ (path.flatMap fun i => mark :: f i).head?, Text.continuesName c = false := by
  cases path with
  | nil => exact fun _ h => nomatch h
  | cons i path =>
    rintro c ⟨⟩
    exact hmark

-- Every point among positions stands before a digit, so a number takes them all.
theorem numeral_dots (path : List Nat) : numeral (dots path) = dots path := by
  induction path with
  | nil => rfl
  | cons i path ih =>
    obtain ⟨d, ds, hdigits, hall, -⟩ := Decimal.exists_toDigits_eq_cons i
    have hstarts : startsWithDigit (Nat.toDigits 10 i ++ dots path) = true := by
      rw [hdigits]
      exact hall d (by simp)
    change numeral ('.' :: (Nat.toDigits 10 i ++ dots path)) = '.' :: (Nat.toDigits 10 i ++ dots path)
    rw [numeral, if_pos (by simp [hstarts]), numeral_digits fun _ => Decimal.isDigit_of_mem_toDigits, ih]

-- The one token behind the first point.
theorem readTokens_dots (source : String) (i : Nat) (path : List Nat) :
    readTokens source (Nat.toDigits 10 i ++ dots path) =
      match Decimal.read (Nat.toDigits 10 i ++ dots path) with
      | none => .error (.badNumber (String.ofList (Nat.toDigits 10 i ++ dots path)))
      | some x => .ok [.number x] := by
  obtain ⟨c, cs, hdigits, hall, -⟩ := Decimal.exists_toDigits_eq_cons i
  obtain ⟨hc, hcs⟩ := List.forall_mem_cons.mp hall
  have hnumeral : numeral (cs ++ dots path) = cs ++ dots path := by
    rw [numeral_digits hcs, numeral_dots]
  have hafter : (afterNumeral (cs ++ dots path)).val = [] := by
    simp [afterNumeral, NotLonger.drop, hnumeral]
  rw [hdigits, List.cons_append, readTokens, if_neg (by simp [(not_quote_of_digit hc).2]),
    readToken_digit hc, hnumeral]
  cases Decimal.read (c :: (cs ++ dots path)) with
  | none => rfl
  | some x =>
    simp only [hafter, readTokens]
    rfl

theorem readTokens_dotted {t : Token}
    (hfront : ∀ rest : List Char, (∀ c ∈ rest.head?, Text.continuesName c = false) →
      ReadsAs front t rest)
    (source : String) (i : Nat) (path : List Nat) :
    readTokens source (front ++ dots (i :: path)) =
      (readTokens source (Nat.toDigits 10 i ++ dots path)).map fun ts => t :: .symbol .dot :: ts := by
  have hdots : dots (i :: path) = Symbol.dot.text.toList ++ (Nat.toDigits 10 i ++ dots path) := rfl
  have hapart : ∀ c ∈ (dots (i :: path)).head?, Text.continuesName c = false :=
    not_continues_flatMap (by decide) _ (i :: path)
  rw [(hfront _ hapart).readTokens, hdots, (readsAs_mark (.inl rfl) _).readTokens]
  cases readTokens source (Nat.toDigits 10 i ++ dots path) <;> rfl

def bracketTokens (path : List Nat) : List Token :=
  path.flatMap fun i => [.symbol .openBracket, .number (Decimal.nearest i 0), .symbol .closeBracket]

-- A bracket ends a number, so that each position is read alone.
theorem readTokens_brackets (source : String) (path : List Nat) :
    readTokens source (brackets path) = .ok (bracketTokens path) := by
  induction path with
  | nil =>
    rw [brackets, List.flatMap_nil, readTokens]
    rfl
  | cons i path ih =>
    have hsplit : brackets (i :: path) = Symbol.openBracket.text.toList ++
        (Nat.toDigits 10 i ++ (Symbol.closeBracket.text.toList ++ brackets path)) := by
      simp [brackets, Symbol.text]
    rw [hsplit, (readsAs_mark (.inr (.inl rfl)) _).readTokens, (readsAs_numeral i rfl).readTokens,
      (readsAs_mark (.inr (.inr rfl)) _).readTokens, ih]
    rfl

end Lexing

section Reading

variable {name : String} {front : List Char} {e : Expr} {t : Token} {ts : List Token} {x : Float}

theorem readMore_position (target : Expr) (x : Float) (rest : List Token) :
    readMore suffixLevel target (.symbol .dot :: .number x :: rest) =
      match position? x with
      | some n => readMore suffixLevel (elementOf target [n]) rest
      | none => .error .missingAttribute := by
  change bare (readSuffixes _ _) = _
  rw [readSuffixes]
  simp only [readAttribute]
  cases position? x with
  | none => rfl
  | some n =>
    change _ = bare (readSuffixes (.index target (.literal (.natural n))) rest)
    cases hmore : readSuffixes (.index target (.literal (.natural n))) rest <;>
      simp only [Shorter.val_tail, hmore] <;> rfl

-- A fault at the tightest level is one at every level.
theorem readLevel_error {fault : Fault} (h : bare (readLevel suffixLevel ts) = .error fault) {k : Nat}
    (hk : k ≤ suffixLevel) : bare (readLevel k ts) = .error fault := by
  refine Nat.decreasingInduction (motive := fun k _ => bare (readLevel k ts) = .error fault)
    (fun k hlt ih => ?_) h hk
  rw [readLevel_next (Nat.le_of_lt_succ hlt), ih]
  rfl

theorem Fits.read {source : String} (hfits : Fits suffixLevel (t :: ts) e)
    (htokens : readTokens source source.toList = .ok (t :: ts)) : Expr.read source = .ok e := by
  have hread := (hfits.loosen (Nat.le_refl _) (Nat.zero_le _)).whole [] (stops_nil 0)
  rw [List.append_nil] at hread
  rw [read_of_tokens htokens, hread]
  rfl

-- What a text with a variable, a point and a number is read as.
theorem Fits.read_position {source : String} (hfits : Fits suffixLevel [t] e)
    (htokens : readTokens source source.toList = .ok [t, .symbol .dot, .number x]) :
    Expr.read source =
      match position? x with
      | some n => .ok (elementOf e [n])
      | none => .error .missingAttribute := by
  have hmore : ∀ rest, bare (Expr.readLevel suffixLevel ([t, .symbol .dot, .number x] ++ rest)) = _ :=
    fun rest => (hfits.readLevel (.symbol .dot :: .number x :: rest)).trans (readMore_position e x rest)
  cases hposition : position? x with
  | some n =>
    simp only [hposition] at hmore
    exact (fits_suffix hmore).read htokens
  | none =>
    simp only [hposition] at hmore
    have herror : bare (Expr.readLevel 0 [t, .symbol .dot, .number x]) = .error .missingAttribute :=
      readLevel_error (hmore []) (Nat.zero_le _)
    rw [read_of_tokens htokens, herror]
    rfl

-- A natural number is a position as long as the language counts it as whole.
theorem position_nearest {n : Nat} (hn : n < 9000000000000000) : position? (Decimal.nearest n 0) = some n := by
  rcases Nat.eq_zero_or_pos n with rfl | hpos
  · rfl
  · obtain ⟨k, hk, hm⟩ := Decimal.exists_normal hpos (by omega)
    have hword : n.toUInt64.toNat = n :=
      UInt64.toNat_ofNat_of_lt' (Nat.lt_trans (Decimal.lt_of_normal hm) (by decide))
    have hwhole : (n.toUInt64.toFloat == Decimal.ofNatural n) = true := Decimal.ofNatural_beq_self hk hm
    rw [Decimal.nearest_natural hk hm, position?, decide_eq_true (Decimal.zero_le_ofNatural hk hm),
      Decimal.ofNatural_toUInt64 hk hm, hwhole, Bool.true_or, Bool.true_and, if_pos rfl, hword]

theorem Spells.read (hfront : Spells name front) : Expr.read (String.ofList front) = .ok (.named name) := by
  obtain ⟨t, hfits, hreads⟩ := hfront.exists_token
  have hread := (hreads [] fun _ h => nomatch h).readTokens (String.ofList front)
  rw [List.append_nil, readTokens] at hread
  exact hfits.read (by rw [String.toList_ofList, hread]; rfl)

theorem fits_brackets {path : List Nat} (hpath : ∀ i ∈ path, i < 9000000000000000)
    (he : Fits suffixLevel ts e) : Fits suffixLevel (ts ++ bracketTokens path) (elementOf e path) := by
  induction path generalizing ts e with
  | nil => rwa [bracketTokens, List.flatMap_nil, List.append_nil]
  | cons i path ih =>
    obtain ⟨hi, hpath⟩ := List.forall_mem_cons.mp hpath
    have hkey : Fits suffixLevel [.number (Decimal.nearest i 0)] (.literal (.natural i)) := by
      refine fits_primary rfl fun rest => ?_
      rw [readPrimary.eq_def, ← Decimal.ofFloat_nearest hi]
      rfl
    have hwhole := (hkey.loosen (Nat.le_refl _) (Nat.zero_le _)).whole
    have hothers := ih hpath (fits_index he hwhole)
    rwa [List.append_assoc] at hothers

theorem read_bracketed {path : List Nat} (hfront : Spells name front)
    (hpath : ∀ i ∈ path, i < 9000000000000000) :
    read (bracketed front path) = .ok (elementOf (.named name) path) := by
  obtain ⟨t, hfits, hreads⟩ := hfront.exists_token
  have hapart : ∀ c ∈ (brackets path).head?, Text.continuesName c = false :=
    not_continues_flatMap (by decide) _ path
  refine (fits_brackets hpath hfits).read ?_
  rw [bracketed, String.toList_ofList, (hreads _ hapart).readTokens, readTokens_brackets]
  rfl

theorem read_dotted {path : List Nat} (hfront : Spells name front)
    (hpath : ∀ i ∈ path, i < 9000000000000000) : read (dotted front path) = dottedReading name path := by
  obtain ⟨t, hfits, hreads⟩ := hfront.exists_token
  have htokens : ∀ i path, readTokens (dotted front (i :: path)) (dotted front (i :: path)).toList =
      (readTokens (dotted front (i :: path)) (Nat.toDigits 10 i ++ dots path)).map
        fun ts => t :: .symbol .dot :: ts := by
    intro i path
    conv_lhs => rw [dotted, String.toList_ofList]
    exact readTokens_dotted hreads _ i path
  have hdigits : ∀ n, ∀ d ∈ Nat.toDigits 10 n, d.isDigit = true :=
    fun _ _ => Decimal.isDigit_of_mem_toDigits
  match path with
  | [] =>
    rw [dotted, dots, List.flatMap_nil, List.append_nil, hfront.read]
    rfl
  | [i] =>
    have hread : Decimal.read (Nat.toDigits 10 i ++ dots []) = some (Decimal.nearest i 0) := by
      rw [dots, List.flatMap_nil, List.append_nil, Decimal.read_toDigits]
    rw [hfits.read_position (by rw [htokens, readTokens_dots, hread]; rfl),
      position_nearest (hpath i (by simp))]
    rfl
  | [i, j] =>
    have hread : Decimal.read (Nat.toDigits 10 i ++ dots [j]) = some (decimal i j) := by
      rw [dots, List.flatMap_singleton]
      exact Decimal.read_point (hdigits i) (hdigits j) Nat.toDigits_ne_nil
    exact hfits.read_position (by rw [htokens, readTokens_dots, hread]; rfl)
  | i :: j :: k :: path =>
    have hread : Decimal.read (Nat.toDigits 10 i ++ dots (j :: k :: path)) = none :=
      Decimal.read_points (hdigits i) (hdigits j) Nat.toDigits_ne_nil _
    have herror : readTokens (dotted front (i :: j :: k :: path)) (dotted front (i :: j :: k :: path)).toList =
        .error (.badNumber (String.ofList (Nat.toDigits 10 i ++ dots (j :: k :: path)))) := by
      rw [htokens, readTokens_dots, hread]
      rfl
    rw [read, herror]
    rfl

end Reading

section Evaluation

variable {name : String} {front : List Char} {path : List Nat}

theorem eval_elementOf (lookup : String → Option Value) (strict : Bool) (e : Expr) (path : List Nat) :
    (elementOf e path).eval lookup strict = (e.eval lookup strict).map (element · path) := by
  induction path generalizing e with
  | nil =>
    change e.eval lookup strict = _
    cases e.eval lookup strict <;> rfl
  | cons i path ih =>
    change (elementOf (.index e (.literal (.natural i))) path).eval lookup strict = _
    rw [ih, eval]
    cases e.eval lookup strict <;> rfl

theorem lookup_single (name : String) (v : Value) : Render.lookup [[(name, v)]] name = some v := by
  simp [Render.lookup, Bindings.get?]

theorem valueIn_elementOf {source : String} {v : Value}
    (hread : read source = .ok (elementOf (.named name) path)) (strict : Bool) :
    valueIn (Render.lookup [[(name, v)]]) strict source = .ok (element v path) := by
  rw [valueIn, hread]
  dsimp only
  rw [eval_elementOf, eval, lookup_single]
  rfl

-- An object with one field has no elements further in.
theorem element_single (key : String) (b : Bool) (i j : Nat) :
    element (.object [(key, .bool b)]) [i, j] = .null := by
  change member (member (.object [(key, .bool b)]) (.natural i)) (.natural j) = .null
  have hinner : member (.object [(key, .bool b)]) (.natural i) = .bool b ∨
      member (.object [(key, .bool b)]) (.natural i) = .null := by
    simp only [member, Bindings.get?, List.lookup_cons, List.lookup_nil]
    split
    · exact .inl rfl
    · exact .inr rfl
  rcases hinner with hinner | hinner <;> rw [hinner] <;> rfl

theorem element_self (n : Nat) (b : Bool) :
    element (.object [((Value.natural n).text, .bool b)]) [n] = .bool b := by
  change member (.object [((Value.natural n).text, .bool b)]) (.natural n) = .bool b
  simp [member, Bindings.get?]

-- Two or more positions behind points are read as a fault, or as one position.
theorem dottedReading_cases (name : String) (i j : Nat) (path : List Nat) :
    (∃ fault, dottedReading name (i :: j :: path) = .error fault) ∨
      path = [] ∧ ∃ n, dottedReading name (i :: j :: path) = .ok (elementOf (.named name) [n]) := by
  cases path with
  | nil =>
    rw [dottedReading]
    cases position? (decimal i j) with
    | none => exact .inl ⟨_, rfl⟩
    | some n => exact .inr ⟨rfl, n, rfl⟩
  | cons k path => exact .inl ⟨_, rfl⟩

-- With points as in brackets a single position is the element that it names. Two positions behind
-- points are read as one number, and more of them are no number, so in some scope that binds the name
-- they give something else than they give in brackets.
theorem dotted_eq_bracketed_iff (name : String) (front : List Char) (path : List Nat)
    (hfront : Spells name front) (hfilled : path ≠ []) (hpath : ∀ i ∈ path, i < 9000000000000000) :
    read (bracketed front path) = .ok (elementOf (.named name) path) ∧
      read (dotted front path) = dottedReading name path ∧
      ((∀ frames strict, valueIn (Render.lookup frames) strict (dotted front path) =
        valueIn (Render.lookup frames) strict (bracketed front path)) ↔ path.length = 1) := by
  have hbracketed := read_bracketed hfront hpath
  have hdotted := read_dotted hfront hpath
  refine ⟨hbracketed, hdotted, ?_⟩
  match path, hfilled with
  | [i], _ =>
    refine iff_of_true (fun frames strict => ?_) rfl
    rw [valueIn, valueIn, hdotted, hbracketed]
    rfl
  | i :: j :: path, _ =>
    refine iff_of_false (fun hagree => ?_) (by simp)
    rcases dottedReading_cases name i j path with ⟨fault, hfault⟩ | ⟨rfl, n, hposition⟩
    · have hvalue := hagree [[(name, .null)]] true
      rw [valueIn_elementOf hbracketed, valueIn, hdotted, hfault] at hvalue
      cases hvalue
    · have hvalue := hagree [[(name, .object [((Value.natural n).text, .bool true)])]] true
      rw [valueIn_elementOf hbracketed, valueIn_elementOf (hdotted.trans hposition), element_self,
        element_single] at hvalue
      cases hvalue

-- A list of two rows: the second one instead of its first element.
theorem dotted_eq_bracketed_rows :
    Spells "x" ['x'] ∧ dotted ['x'] [1, 0] = "x.1.0" ∧ bracketed ['x'] [1, 0] = "x[1][0]" ∧
      (let rows := Value.array [.array [.string "a", .string "b"], .array [.string "c", .string "d"]]
      (valueIn (Render.lookup [[("x", rows)]]) true (dotted ['x'] [1, 0])).toOption.map Value.text =
          some "[\"c\",\"d\"]" ∧
        (valueIn (Render.lookup [[("x", rows)]]) true (bracketed ['x'] [1, 0])).toOption.map Value.text =
          some "c") ∧
      ¬∀ frames strict, valueIn (Render.lookup frames) strict (dotted ['x'] [1, 0]) =
        valueIn (Render.lookup frames) strict (bracketed ['x'] [1, 0]) := by
  have hfront : Spells "x" ['x'] := .word (by decide) (by decide)
  have hpath := dotted_eq_bracketed_iff "x" ['x'] [1, 0] hfront (by decide) (by decide)
  refine ⟨hfront, by decide +kernel, by decide +kernel, ⟨by decide +kernel, by decide +kernel⟩, ?_⟩
  exact mt hpath.2.2.mp (by decide)

end Evaluation

end Expr

end TemplateEngine
