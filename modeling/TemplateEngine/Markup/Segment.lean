import TemplateEngine.Markup.Fault
import TemplateEngine.Text.Blank
import TemplateEngine.Text.Search

-- The segments of a template: text, echoes, tags, comments and literal sections. Together they
-- make up the whole source.
namespace TemplateEngine.Markup

inductive Segment where
  | text (content : List Char)
  | echo (body : List Char)
  | tag (body : List Char)
  | comment (body : List Char)
  | literal (body content closing : List Char)

def Segment.written : Segment → List Char
  | text content => content
  | echo body => '{' :: '{' :: (body ++ ['}', '}'])
  | tag body => '{' :: '%' :: (body ++ ['%', '}'])
  | comment body => '{' :: '#' :: (body ++ ['#', '}'])
  | literal body content closing => '{' :: '%' :: (body ++ ['%', '}'] ++ content ++ closing)

structure Placed where
  line : Nat
  segment : Segment

inductive Delimiter where
  | echo
  | tag
  | comment
deriving DecidableEq, Repr

def Delimiter.mark : Delimiter → Char
  | echo => '}'
  | tag => '%'
  | comment => '#'

def Delimiter.opener : Delimiter → String
  | echo => "\x7b\x7b"
  | tag => "\x7b%"
  | comment => "\x7b#"

def Delimiter.ofChar? (c : Char) : Option Delimiter :=
  if c = '{' then some .echo
  else if c = '%' then some .tag
  else if c = '#' then some .comment
  else none

def opener? (cs : List Char) : Option (Delimiter × Shorter cs) :=
  match cs with
  | '{' :: c :: _ =>
    (Delimiter.ofChar? c).map fun d => (d, Shorter.tail.cons)
  | _ => none

-- The text before the first opening delimiter, and the text after it.
def cutOpener (cs : List Char) : Option (List Char × Delimiter × Shorter cs) :=
  match opener? cs with
  | some (d, rest) => some ([], d, rest)
  | none =>
    match cs with
    | [] => none
    | c :: cs => (cutOpener cs).map fun (before, d, rest) => (c :: before, d, rest.cons)

-- The text before a closing delimiter outside quotes, and the text after it. Inside quotes a
-- backslash takes the next character with it.
def cutUnquoted (mark : Char) (quote : Option Char) (cs : List Char) : Option (List Char × NotLonger cs) :=
  match cs with
  | [] => none
  | [_] => none
  | c :: d :: rest =>
    match quote with
    | some q =>
      if c = '\\' then
        (cutUnquoted mark quote rest).map fun (before, after) =>
          (c :: d :: before, after.cons.cons.loosen)
      else
        (cutUnquoted mark (if c = q then none else quote) (d :: rest)).map fun (before, after) =>
          (c :: before, after.cons.loosen)
    | none =>
      if c = '\'' || c = '"' then
        (cutUnquoted mark (some c) (d :: rest)).map fun (before, after) =>
          (c :: before, after.cons.loosen)
      else if c = mark && d = '}' then some ([], Shorter.tail.cons.loosen)
      else
        (cutUnquoted mark none (d :: rest)).map fun (before, after) =>
          (c :: before, after.cons.loosen)

-- The body of a span, and the text after its closing delimiter. Comments know no quotes.
def cutCloser (d : Delimiter) (cs : List Char) : Option (List Char × NotLonger cs) :=
  match d with
  | .comment => Text.cutWith (Text.exactly ['#', '}']) cs
  | d => cutUnquoted d.mark none cs

def endLiteral : Text.Matcher := fun cs => do
  let opened ← Text.exactly ['{', '%'] cs
  let inner := NotLonger.dropWhile Text.isBlank opened.val
  let named ← Text.exactly "endliteral".toList inner.val
  let outer := NotLonger.dropWhile Text.isBlank named.val
  let closed ← Text.exactly ['%', '}'] outer.val
  return opened.trans (inner.trans (named.trans (outer.trans closed)))

def isLiteralTag (d : Delimiter) (body : List Char) : Bool :=
  d == .tag && Text.trim body == "literal".toList

def Segment.ofSpan (d : Delimiter) (body : List Char) : Segment :=
  match d with
  | .echo => .echo body
  | .tag => .tag body
  | .comment => .comment body

def textSegment (line : Nat) (content : List Char) : List Placed :=
  if content.isEmpty then [] else [⟨line, .text content⟩]

def segments (line : Nat) (cs : List Char) : Except Error (List Placed) :=
  match cutOpener cs with
  | none => .ok (textSegment line cs)
  | some (before, d, rest) =>
    have := rest.property
    let start := line + Text.newlines before
    match cutCloser d rest.val with
    | none => .error ⟨start, .unclosedDelimiter d.opener⟩
    | some (body, after) =>
      have := after.property
      let next := start + Text.newlines body
      if isLiteralTag d body then
        match Text.cutWith endLiteral after.val with
        | none => .error ⟨next, .unclosedLiteral⟩
        | some (content, last) =>
          have := last.property
          let closing := (after.val.drop content.length).take
            (after.val.length - content.length - last.val.length)
          (segments (next + Text.newlines content + Text.newlines closing) last.val).map fun more =>
            textSegment line before ++ ⟨start, .literal body content closing⟩ :: more
      else
        (segments next after.val).map fun more =>
          textSegment line before ++ ⟨start, .ofSpan d body⟩ :: more
termination_by cs.length
decreasing_by all_goals omega

end TemplateEngine.Markup
