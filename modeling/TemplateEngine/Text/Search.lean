import TemplateEngine.Remainder

-- Finding and cutting text. A matcher looks at the front of a text and, if it accepts,
-- returns what follows the part it accepted.
namespace TemplateEngine.Text

abbrev Matcher := (cs : List Char) → Option (NotLonger cs)

-- Accepts exactly the given characters.
def exactly : List Char → Matcher
  | [], _ => some .all
  | _ :: _, [] => none
  | p :: ps, c :: cs => if p = c then (exactly ps cs).map fun rest => rest.cons.loosen else none

theorem exactly_eq_some {pattern cs : List Char} {rest : NotLonger cs}
    (h : exactly pattern cs = some rest) : cs = pattern ++ rest.val := by
  induction pattern generalizing cs with
  | nil =>
    simp only [exactly, Option.some.injEq] at h
    subst h
    rfl
  | cons p ps ih =>
    cases cs with
    | nil => cases h
    | cons c cs =>
      by_cases hc : p = c
      · subst hc
        simp only [exactly, if_true, Option.map_eq_some_iff] at h
        obtain ⟨r, hr, rfl⟩ := h
        simpa using ih hr
      · simp [exactly, hc] at h

theorem exactly_append (pattern rest : List Char) :
    (exactly pattern (pattern ++ rest)).map Subtype.val = some rest := by
  induction pattern with
  | nil => rfl
  | cons p ps ih => simpa [exactly, Option.map_map, Function.comp_def, NotLonger.weaken] using ih

-- The text before the first place where the matcher accepts, and the text after what it accepted.
def cutWith (accepts : Matcher) (cs : List Char) : Option (List Char × NotLonger cs) :=
  match accepts cs with
  | some rest => some ([], rest)
  | none =>
    match cs with
    | [] => none
    | c :: cs => (cutWith accepts cs).map fun (before, rest) => (c :: before, rest.cons.loosen)

def cut (pattern cs : List Char) : Option (List Char × List Char) :=
  (cutWith (exactly pattern) cs).map fun (before, rest) => (before, rest.val)

def cutLast (pattern : List Char) : List Char → Option (List Char × List Char)
  | [] => (exactly pattern []).map fun rest => ([], rest.val)
  | c :: cs =>
    match cutLast pattern cs with
    | some (before, rest) => some (c :: before, rest)
    | none => (exactly pattern (c :: cs)).map fun rest => ([], rest.val)

theorem cutWith_exactly {pattern cs before : List Char} {rest : NotLonger cs}
    (h : cutWith (exactly pattern) cs = some (before, rest)) : cs = before ++ pattern ++ rest.val := by
  induction cs generalizing before with
  | nil =>
    unfold cutWith at h
    split at h
    · next r hr => cases h; simpa using exactly_eq_some hr
    · cases h
  | cons c cs ih =>
    unfold cutWith at h
    split at h
    · next r hr => cases h; simpa using exactly_eq_some hr
    · simp only [Option.map_eq_some_iff] at h
      obtain ⟨⟨b, r⟩, hb, he⟩ := h
      cases he
      simpa using ih hb

theorem cut_eq_some {pattern cs before rest : List Char} (h : cut pattern cs = some (before, rest)) :
    cs = before ++ pattern ++ rest := by
  simp only [cut, Option.map_eq_some_iff] at h
  obtain ⟨⟨b, r⟩, hb, he⟩ := h
  cases he
  exact cutWith_exactly hb

theorem cutLast_eq_some {pattern cs before rest : List Char}
    (h : cutLast pattern cs = some (before, rest)) : cs = before ++ pattern ++ rest := by
  induction cs generalizing before with
  | nil =>
    simp only [cutLast, Option.map_eq_some_iff] at h
    obtain ⟨r, hr, he⟩ := h
    cases he
    simpa using exactly_eq_some hr
  | cons c cs ih =>
    unfold cutLast at h
    split at h
    · next b r hb => cases h; simp [ih hb]
    · simp only [Option.map_eq_some_iff] at h
      obtain ⟨r, hr, he⟩ := h
      cases he
      simpa using exactly_eq_some hr

def occurs (pattern cs : List Char) : Bool := (cut pattern cs).isSome

def newlines (cs : List Char) : Nat := cs.count '\n'

@[simp]
theorem newlines_append (a b : List Char) : newlines (a ++ b) = newlines a + newlines b := by
  simp [newlines]

end TemplateEngine.Text
