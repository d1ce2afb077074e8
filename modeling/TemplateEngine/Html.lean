import TemplateEngine.Remainder

-- Text inside HTML: escaping, line breaks and tags.
namespace TemplateEngine.Html

-- The five characters that have a meaning in HTML become entities.
def escapeChar (c : Char) : List Char :=
  if c = '&' then "&amp;".toList
  else if c = '<' then "&lt;".toList
  else if c = '>' then "&gt;".toList
  else if c = '"' then "&quot;".toList
  else if c = '\'' then "&#039;".toList
  else [c]

def escape (cs : List Char) : List Char := cs.flatMap escapeChar

def breakLines (cs : List Char) : List Char :=
  cs.flatMap fun c => if c = '\n' then "<br />\n".toList else [c]

-- The text after the next closing angle bracket.
def afterTag (cs : List Char) : Option (Shorter cs) :=
  match cs with
  | [] => none
  | c :: rest =>
    if c = '>' then some .tail
    else (afterTag rest).map Shorter.cons

-- Removes every tag: an opening angle bracket with all that follows up to the next closing one.
-- Where no closing one follows, there are no more tags.
def stripTags (cs : List Char) : List Char :=
  match cs with
  | [] => []
  | c :: rest =>
    if c = '<' then
      match afterTag rest with
      | some after =>
        have := after.property
        stripTags after.val
      | none => c :: rest
    else c :: stripTags rest
termination_by cs.length
decreasing_by all_goals simp only [List.length_cons]; omega

end TemplateEngine.Html
