import TemplateEngine.Value

-- JSON documents: well-formed text as a tree. Members of an object stand in the order written and
-- may repeat a name. A leaf is `none` where the text is well-formed but denotes nothing: a number
-- beyond the doubles, or a string with half of a surrogate pair.
namespace TemplateEngine.Json

inductive Document where
  | null
  | bool (b : Bool)
  | number (n : Option Number)
  | string (s : Option String)
  | array (items : List Document)
  | object (members : List (Option String × Document))

namespace Document

def text (s : String) : Document := .string (some s)

def natural (n : Nat) : Document := .number (some (.integer n))

def texts (all : List String) : Document := .array (all.map text)

def record (members : List (String × Document)) : Document :=
  .object (members.map fun (name, d) => (some name, d))

mutual

def depth : Document → Nat
  | array items => depthItems items + 1
  | object members => depthMembers members + 1
  | _ => 0

def depthItems : List Document → Nat
  | [] => 0
  | d :: ds => max (depth d) (depthItems ds)

def depthMembers : List (Option String × Document) → Nat
  | [] => 0
  | (_, d) :: ds => max (depth d) (depthMembers ds)

end

mutual

-- Whether every leaf and every name denotes something.
def intact : Document → Bool
  | null | bool _ => true
  | number n => n.isSome
  | string s => s.isSome
  | array items => intactItems items
  | object members => intactMembers members

def intactItems : List Document → Bool
  | [] => true
  | d :: ds => intact d && intactItems ds

def intactMembers : List (Option String × Document) → Bool
  | [] => true
  | (name, d) :: ds => name.isSome && intact d && intactMembers ds

end

mutual

def ofValue : Value → Document
  | .null => null
  | .bool b => bool b
  | .number n => number (some n)
  | .string s => string (some s)
  | .array items => array (ofItems items)
  | .object fields => object (ofFields fields)

def ofItems : List Value → List Document
  | [] => []
  | v :: vs => ofValue v :: ofItems vs

def ofFields : List (String × Value) → List (Option String × Document)
  | [] => []
  | (name, v) :: rest => (some name, ofValue v) :: ofFields rest

end

mutual

-- What an intact document denotes. Of two members with one name the later one counts.
def denoted : Document → Value
  | null => .null
  | bool b => .bool b
  | number n => (n.map .number).getD .null
  | string s => (s.map .string).getD .null
  | array items => .array (denotedItems items)
  | object members => .object (Bindings.ofList (denotedMembers members))

def denotedItems : List Document → List Value
  | [] => []
  | d :: ds => denoted d :: denotedItems ds

def denotedMembers : List (Option String × Document) → List (String × Value)
  | [] => []
  | (name, d) :: ds => (name.getD "", denoted d) :: denotedMembers ds

end

def maxDepth : Nat := 127

def value? (d : Document) : Option Value :=
  if d.intact && d.depth ≤ maxDepth then some d.denoted else none

end Document

end TemplateEngine.Json
