import TemplateEngine.Json.Document

-- Records in documents. A record is an object of its fields, or the list of them in order.
-- In an object, other members do not matter, and no field stands twice.
namespace TemplateEngine.Json.Document

def string? : Document → Option String
  | .string s => s
  | _ => none

def bool? : Document → Option Bool
  | .bool b => some b
  | _ => none

def natural? : Document → Option Nat
  | .number (some (.integer n)) => if 0 ≤ n then some n.toNat else none
  | _ => none

def array? : Document → Option (List Document)
  | .array items => some items
  | _ => none

def texts? (d : Document) : Option (List String) := d.array?.bind fun items => items.mapM string?

-- The value of a field: absent, written once, or written more than once.
inductive Field where
  | absent
  | once (d : Document)
  | repeated

def fieldOf (name : String) (members : List (Option String × Document)) : Field :=
  match members.filter fun (other, _) => other == some name with
  | [] => .absent
  | [(_, d)] => .once d
  | _ => .repeated

-- The fields of a record, of which the last `optional` ones may be left out of a list.
-- An absent field is `none`; what to make of it is for the reader of the record to say.
def fields? (names : List String) (optional : Nat) (d : Document) : Option (List (Option Document)) :=
  match d with
  | .object members =>
    if members.all fun (name, _) => name.isSome then
      names.mapM fun name =>
        match fieldOf name members with
        | .absent => some none
        | .once d => some (some d)
        | .repeated => none
    else none
  | .array items =>
    if names.length ≤ items.length + optional && items.length ≤ names.length then
      some (items.map some ++ List.replicate (names.length - items.length) none)
    else none
  | _ => none

end TemplateEngine.Json.Document
