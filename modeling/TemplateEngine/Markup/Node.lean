-- The tree of a template.
namespace TemplateEngine

-- The two spellings of loops, which differ in their headers.
inductive LoopKind where
  | foreach
  | forIn
deriving DecidableEq, Repr

def LoopKind.keyword : LoopKind → String
  | foreach => "foreach"
  | forIn => "for"

def LoopKind.endKeyword : LoopKind → String
  | foreach => "endforeach"
  | forIn => "endfor"

structure Branch (α : Type) where
  condition : String
  body : List α

-- Expressions, conditions and loop headers stay text until the template runs. A reference to
-- another template keeps the line it stands on.
inductive Node where
  | text (content : String)
  | echo (expr : String) (filters : List String) (escape : Bool)
  | choice (branches : List (Branch Node)) (otherwise : Option (List Node))
  | loop (kind : LoopKind) (header : String) (body : List Node)
  | block (name : String) (body : List Node)
  | parent
  | extending (name : String) (line : Nat)
  | including (name : String) (line : Nat)

end TemplateEngine
