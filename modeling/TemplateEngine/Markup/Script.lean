import TemplateEngine.Text.Search

-- Removal of embedded script spans, which open with `<?` or `<%`.
namespace TemplateEngine.Markup

-- The character that marks a script span beside its angle brackets.
def scriptMark? (c : Char) : Option Char := if c = '?' || c = '%' then some c else none

-- The mark of the span that opens at the front of a text, and what follows its opener.
def scriptOpener? (cs : List Char) : Option (Char × Shorter cs) :=
  match cs with
  | '<' :: c :: _ => (scriptMark? c).map fun mark => (mark, Shorter.tail.cons)
  | _ => none

-- What follows the closer of a span.
def afterScript (mark : Char) (cs : List Char) : Option (NotLonger cs) :=
  (Text.cutWith (Text.exactly [mark, '>']) cs).map (·.2)

-- Cuts out every span up to its own closer. A span without a closer reaches to the end.
def stripScripts (cs : List Char) : List Char :=
  match scriptOpener? cs with
  | some (mark, rest) =>
    match afterScript mark rest.val with
    | some after => stripScripts after.val
    | none => []
  | none =>
    match cs with
    | [] => []
    | c :: rest => c :: stripScripts rest
termination_by cs.length
decreasing_by
  · have := rest.property; have := after.property; omega
  · simp

def hasScript (cs : List Char) : Bool := Text.occurs ['<', '?'] cs || Text.occurs ['<', '%'] cs

end TemplateEngine.Markup
