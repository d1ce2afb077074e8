import TemplateEngine.Number

-- Values of template data. Objects list their fields by name in ascending order, each name once.
namespace TemplateEngine

inductive Value where
  | null
  | bool (b : Bool)
  | number (n : Number)
  | string (s : String)
  | array (items : List Value)
  | object (fields : List (String × Value))

abbrev Bindings := List (String × Value)

namespace Bindings

def get? (fields : Bindings) (name : String) : Option Value := fields.lookup name

def insert (name : String) (value : Value) : Bindings → Bindings
  | [] => [(name, value)]
  | (other, old) :: rest =>
    if name = other then (name, value) :: rest
    else if name < other then (name, value) :: (other, old) :: rest
    else (other, old) :: insert name value rest

-- Sets the fields one after the other: of two with the same name the later one stays.
def ofList (fields : List (String × Value)) : Bindings :=
  fields.foldl (fun all (name, value) => insert name value all) []

def names (fields : Bindings) : List String := fields.map (·.1)

end Bindings

namespace Value

def integer (n : Int) : Value := .number (.integer n)

def natural (n : Nat) : Value := .number (.integer n)

-- What is no finite number is null.
def ofFloat (x : Float) : Value :=
  match Number.ofFloat? x with
  | some n => .number n
  | none => .null

def kind : Value → String
  | null => "null"
  | bool _ => "boolean"
  | number _ => "number"
  | string _ => "string"
  | array _ => "array"
  | object _ => "object"

-- Null, false, zero, the empty string and empty collections are not true.
def truthy : Value → Bool
  | null => false
  | bool b => b
  | number n => n.toFloat != 0.0
  | string s => !s.isEmpty
  | array items => !items.isEmpty
  | object fields => !fields.isEmpty

mutual

-- Equality of structure: an integer differs from a double.
def same : Value → Value → Bool
  | null, null => true
  | bool a, bool b => a == b
  | number a, number b => a.same b
  | string a, string b => a == b
  | array a, array b => sameItems a b
  | object a, object b => sameFields a b
  | _, _ => false

def sameItems : List Value → List Value → Bool
  | [], [] => true
  | a :: as, b :: bs => same a b && sameItems as bs
  | _, _ => false

def sameFields : List (String × Value) → List (String × Value) → Bool
  | [], [] => true
  | (m, a) :: as, (n, b) :: bs => m == n && same a b && sameFields as bs
  | _, _ => false

end

end Value

end TemplateEngine
