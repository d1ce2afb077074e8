import TemplateEngine.Markup.Fault
import TemplateEngine.Text.Blank

-- The body of an echo: an expression and the filters applied to it, with bars between them.
namespace TemplateEngine.Markup

def consPiece (c : Char) : List (List Char) → List (List Char)
  | [] => [[c]]
  | piece :: pieces => (c :: piece) :: pieces

-- The pieces between single bars outside quotes. Inside quotes a backslash takes the next
-- character with it.
def splitBars (quote : Option Char) (cs : List Char) : List (List Char) :=
  match cs with
  | [] => [[]]
  | [c] => if quote.isNone && c = '|' then [[], []] else [[c]]
  | c :: d :: rest =>
    match quote with
    | some q =>
      if c = '\\' then consPiece c (consPiece d (splitBars quote rest))
      else consPiece c (splitBars (if c = q then none else quote) (d :: rest))
    | none =>
      if c = '\'' || c = '"' then consPiece c (splitBars (some c) (d :: rest))
      else if c = '|' then
        if d = '|' then consPiece c (consPiece d (splitBars none rest))
        else [] :: splitBars none (d :: rest)
      else consPiece c (splitBars none (d :: rest))

-- Every echo is escaped until the filters are looked at.
def readEcho (body : List Char) : Except Fault Node :=
  match (splitBars none body).map Text.trim with
  | [] | [] :: _ => .error .emptyExpression
  | expr :: filters =>
    if filters.any List.isEmpty then .error .emptyFilter
    else .ok (.echo (String.ofList expr) (filters.map String.ofList) true)

end TemplateEngine.Markup
