import TemplateEngine.Decimal.Reading
import TemplateEngine.Expr.Fault
import TemplateEngine.Remainder
import TemplateEngine.Text.Blank
import TemplateEngine.Text.Letter

-- The tokens of an expression.
namespace TemplateEngine.Expr

inductive Token where
  | word (name : String)
  | variableName (name : String)
  | string (s : String)
  | number (x : Float)
  | symbol (s : Symbol)

-- The symbol at the front of a text, the longest one that fits.
def readSymbol (cs : List Char) : Option (Symbol × Shorter cs) :=
  match cs with
  | '=' :: '=' :: '=' :: _ => some (.identical, Shorter.tail.cons.cons)
  | '!' :: '=' :: '=' :: _ => some (.notIdentical, Shorter.tail.cons.cons)
  | '=' :: '=' :: _ => some (.equal, Shorter.tail.cons)
  | '!' :: '=' :: _ => some (.unequal, Shorter.tail.cons)
  | '<' :: '=' :: _ => some (.atMost, Shorter.tail.cons)
  | '>' :: '=' :: _ => some (.atLeast, Shorter.tail.cons)
  | '&' :: '&' :: _ => some (.both, Shorter.tail.cons)
  | '|' :: '|' :: _ => some (.either, Shorter.tail.cons)
  | c :: _ =>
    let symbol : Option Symbol :=
      if c = '<' then some .less
      else if c = '>' then some .greater
      else if c = '!' then some .bang
      else if c = '~' then some .tilde
      else if c = '+' then some .plus
      else if c = '-' then some .minus
      else if c = '*' then some .times
      else if c = '/' then some .slash
      else if c = '%' then some .percent
      else if c = '.' then some .dot
      else if c = '[' then some .openBracket
      else if c = ']' then some .closeBracket
      else if c = '(' then some .openParen
      else if c = ')' then some .closeParen
      else none
    symbol.map fun s => (s, .tail)
  | [] => none

def unescaped (c : Char) : Char := if c = 'n' then '\n' else if c = 't' then '\t' else c

-- The content of a string after its opening quote, and what follows its closing quote.
def readString (quote : Char) (cs : List Char) : Option (List Char × Shorter cs) :=
  match cs with
  | [] => none
  | ['\\'] => none
  | '\\' :: c :: rest =>
    (readString quote rest).map fun (content, after) =>
      (unescaped c :: content, after.cons.cons)
  | c :: rest =>
    if c = quote then some ([], .tail)
    else
      (readString quote rest).map fun (content, after) =>
        (c :: content, after.cons)

def startsWithDigit : List Char → Bool
  | c :: _ => c.isDigit
  | [] => false

-- The digits at the front of a text, with every point that has a digit after it.
def numeral : List Char → List Char
  | [] => []
  | c :: cs => if c.isDigit || (c == '.' && startsWithDigit cs) then c :: numeral cs else []

def afterNumeral (cs : List Char) : NotLonger cs := .drop (numeral cs).length cs

def afterName (cs : List Char) : NotLonger cs := .dropWhile Text.continuesName cs

def readToken (source : String) (c : Char) (rest : List Char) :
    Except Fault (Token × NotLonger rest) :=
  if c = '\'' || c = '"' then
    match readString c rest with
    | none => .error (.unterminatedString source)
    | some (content, after) =>
      .ok (.string (String.ofList content), after.loosen)
  else if c.isDigit then
    let literal := c :: numeral rest
    match Decimal.read literal with
    | none => .error (.badNumber (String.ofList literal))
    | some x => .ok (.number x, afterNumeral rest)
  else if c = '$' then
    let name := rest.takeWhile Text.continuesName
    if name.isEmpty then .error .missingVariable
    else .ok (.variableName (String.ofList name), afterName rest)
  else if Text.startsName c then
    .ok (.word (String.ofList (c :: rest.takeWhile Text.continuesName)), afterName rest)
  else
    match readSymbol (c :: rest) with
    | none => .error (.unexpectedCharacter c source)
    | some (s, after) =>
      .ok (.symbol s, ⟨after.val, Nat.le_of_lt_succ after.property⟩)

-- All tokens of a text; `source` is the text that messages quote.
def readTokens (source : String) (cs : List Char) : Except Fault (List Token) :=
  match cs with
  | [] => .ok []
  | c :: rest =>
    if Text.isBlank c then readTokens source rest
    else
      match readToken source c rest with
      | .error fault => .error fault
      | .ok (token, after) =>
        have := after.property
        (readTokens source after.val).map (token :: ·)
termination_by cs.length
decreasing_by all_goals (simp only [List.length_cons]; omega)

end TemplateEngine.Expr
