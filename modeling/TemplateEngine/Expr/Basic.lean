import TemplateEngine.Value

-- Expressions of the template language.
namespace TemplateEngine

inductive Operator where
  | or | and | eq | ne | lt | gt | le | ge | concat | add | sub | mul | div | rem
deriving DecidableEq, Repr

inductive Expr where
  | literal (v : Value)
  | named (name : String)
  | attribute (target : Expr) (name : String)
  | index (target key : Expr)
  | not (operand : Expr)
  | negate (operand : Expr)
  | binary (op : Operator) (left right : Expr)

end TemplateEngine
