import TemplateEngine.Markup.Fault
import TemplateEngine.Text.Blank
import TemplateEngine.Text.Letter
import TemplateEngine.Text.Search

-- Directives, which stand in tags: a keyword and its arguments.
namespace TemplateEngine.Markup

inductive Directive where
  | openIf (condition : String)
  | elseIf (condition : String)
  | openElse
  | endIf
  | openLoop (kind : LoopKind) (header : String)
  | endLoop (kind : LoopKind)
  | openBlock (name : String)
  | endBlock
  | parent
  | extending (name : String)
  | including (name : String)
deriving DecidableEq, Repr

def Directive.keyword : Directive → String
  | openIf _ => "if"
  | elseIf _ => "elseif"
  | openElse => "else"
  | endIf => "endif"
  | openLoop kind _ => kind.keyword
  | endLoop kind => kind.endKeyword
  | openBlock _ => "block"
  | endBlock => "endblock"
  | parent => "parent"
  | extending _ => "extends"
  | including _ => "include"

def unquoted? (quote : Char) (cs : List Char) : Option (List Char) :=
  match cs with
  | [] | [_] => none
  | c :: rest => if c = quote && rest.getLast? == some quote then some rest.dropLast else none

def readName (keyword : String) (args : List Char) : Except Fault String :=
  match (unquoted? '\'' args).or (unquoted? '"' args) with
  | some (c :: cs) => .ok (String.ofList (c :: cs))
  | _ => .error (.needsQuotedName keyword (String.ofList args))

def readArgument (keyword : String) (args : List Char) : Except Fault String :=
  if args.isEmpty then .error (.needsExpression keyword) else .ok (String.ofList args)

def withoutArguments (keyword : String) (args : List Char) (d : Directive) : Except Fault Directive :=
  if args.isEmpty then .ok d else .error (.takesNoArguments keyword)

def splitKeyword (body : List Char) : String × List Char :=
  let cs := Text.trim body
  let keyword := cs.takeWhile fun c => !Text.isBlank c
  (String.ofList keyword, Text.trim (cs.drop (keyword.length + 1)))

-- The condition of a tag that spells `else if` as two words.
def elseCondition? (args : List Char) : Option (List Char) :=
  (Text.exactly "if ".toList args).map fun rest => Text.trim rest.val

-- A name after `endblock` is allowed and means nothing.
def readDirective (body : List Char) : Except Fault Directive :=
  let (keyword, args) := splitKeyword body
  match keyword with
  | "if" => (readArgument keyword args).map .openIf
  | "elseif" | "elif" => (readArgument keyword args).map .elseIf
  | "else" =>
    match elseCondition? args with
    | some condition => (readArgument "else if" condition).map .elseIf
    | none => withoutArguments keyword args .openElse
  | "endif" => withoutArguments keyword args .endIf
  | "foreach" => (readArgument keyword args).map (.openLoop .foreach)
  | "endforeach" => withoutArguments keyword args (.endLoop .foreach)
  | "for" => (readArgument keyword args).map (.openLoop .forIn)
  | "endfor" => withoutArguments keyword args (.endLoop .forIn)
  | "block" =>
    if Text.isLabel args then .ok (.openBlock (String.ofList args))
    else .error (.invalidBlockName (String.ofList args))
  | "endblock" => .ok .endBlock
  | "parent" => withoutArguments keyword args .parent
  | "extends" => (readName keyword args).map .extending
  | "include" => (readName keyword args).map .including
  | "" => .error .emptyDirective
  | _ => .error (.unknownDirective keyword)

end TemplateEngine.Markup
