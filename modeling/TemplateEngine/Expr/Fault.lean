import TemplateEngine.Value

-- What can be wrong with an expression: in its text, or in the values it meets.
namespace TemplateEngine.Expr

inductive Symbol where
  | identical | notIdentical | equal | unequal | atMost | atLeast | both | either
  | less | greater | bang | tilde | plus | minus | times | slash | percent | dot
  | openBracket | closeBracket | openParen | closeParen
deriving DecidableEq, Repr

def Symbol.text : Symbol → String
  | identical => "===" | notIdentical => "!==" | equal => "==" | unequal => "!="
  | atMost => "<=" | atLeast => ">=" | both => "&&" | either => "||"
  | less => "<" | greater => ">" | bang => "!" | tilde => "~" | plus => "+" | minus => "-"
  | times => "*" | slash => "/" | percent => "%" | dot => "."
  | openBracket => "[" | closeBracket => "]" | openParen => "(" | closeParen => ")"

inductive Fault where
  | unterminatedString (source : String)
  | unexpectedCharacter (c : Char) (source : String)
  | badNumber (literal : String)
  | missingVariable
  | missingAttribute
  | missingBracket
  | missingParen
  | unexpectedEnd
  | unexpectedSymbol (s : Symbol)
  | empty
  | trailing (source : String)
  | notNumeric (s : String) (operation : String)
  | notNumber (kind : String) (operation : String)
  | incomparable (left right : String)
  | unordered
  | divisionByZero
deriving DecidableEq, Repr

def Fault.message : Fault → String
  | unterminatedString source => s!"unterminated string in '{source}'"
  | unexpectedCharacter c source => s!"unexpected character '{c}' in '{source}'"
  | badNumber written => s!"invalid number '{written}'"
  | missingVariable => "expected a variable name after '$'"
  | missingAttribute => "expected an attribute name after '.'"
  | missingBracket => "expected ']'"
  | missingParen => "expected ')'"
  | unexpectedEnd => "unexpected end of expression"
  | unexpectedSymbol s => s!"unexpected '{s.text}'"
  | empty => "empty expression"
  | trailing source => s!"unexpected trailing input in '{source}'"
  | notNumeric s operation => s!"cannot use string '{s}' as a number in '{operation}'"
  | notNumber kind operation => s!"cannot use {kind} as a number in '{operation}'"
  | incomparable left right => s!"cannot compare {left} with {right}"
  | unordered => "cannot compare NaN"
  | divisionByZero => "division by zero"

end TemplateEngine.Expr
