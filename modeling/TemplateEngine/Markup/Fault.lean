import TemplateEngine.Markup.Node

-- What can be wrong with the text of a template, and the line it is reported for.
namespace TemplateEngine.Markup

inductive Fault where
  | unclosedDelimiter (opener : String)
  | unclosedLiteral
  | needsExpression (keyword : String)
  | needsQuotedName (keyword found : String)
  | takesNoArguments (keyword : String)
  | invalidBlockName (name : String)
  | emptyDirective
  | unknownDirective (keyword : String)
  | emptyExpression
  | emptyFilter
  | unexpected (keyword : String)
  | unclosedIf
  | unclosedElse
  | unclosedLoop (kind : LoopKind)
  | unclosedBlock (name : String)
  | secondBase
  | nestedBase
deriving DecidableEq, Repr

def Fault.message : Fault → String
  | unclosedDelimiter opener => s!"unclosed '{opener}' delimiter"
  | unclosedLiteral => "unclosed 'literal': missing '\x7b% endliteral %\x7d'"
  | needsExpression keyword => s!"'{keyword}' requires an expression"
  | needsQuotedName keyword found => s!"'{keyword}' expects a quoted template name, found '{found}'"
  | takesNoArguments keyword => s!"'{keyword}' takes no arguments"
  | invalidBlockName name => s!"invalid block name '{name}'"
  | emptyDirective => "empty directive"
  | unknownDirective keyword => s!"unknown directive '{keyword}'"
  | emptyExpression => "empty expression in '\x7b\x7b \x7d\x7d'"
  | emptyFilter => "empty filter name in filter chain"
  | unexpected keyword => s!"unexpected '{keyword}'"
  | unclosedIf => "unclosed 'if': missing '\x7b% endif %\x7d'"
  | unclosedElse => "unclosed 'else': missing '\x7b% endif %\x7d'"
  | unclosedLoop kind => "unclosed loop: missing '\x7b% " ++ kind.endKeyword ++ " %\x7d'"
  | unclosedBlock name => s!"unclosed block '{name}': missing " ++ "'\x7b% endblock %\x7d'"
  | secondBase => "a template may only extend one parent"
  | nestedBase => "'extends' must appear at the top level of a template"

structure Error where
  line : Nat
  fault : Fault
deriving DecidableEq, Repr

end TemplateEngine.Markup
