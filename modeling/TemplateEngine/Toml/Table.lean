-- Tables of settings, built up one definition at a time. What a key or a header may still add to
-- a table depends on how the table came to be.
namespace TemplateEngine.Toml

-- A table comes from its own header, from the header of a table inside it, from a dotted key, or
-- from braces.
inductive Origin where
  | header
  | implied
  | dotted
  | braces
deriving DecidableEq, Repr

-- Numbers, dates and times are kept as written. A list of tables has at least one, and the last
-- is the one that definitions go to.
inductive Value where
  | string (s : String)
  | bool (b : Bool)
  | plain (text : String)
  | array (items : List Value)
  | table (origin : Origin) (fields : List (String × Value))
  | tables (before : List (List (String × Value))) (last : List (String × Value))

abbrev Fields := List (String × Value)

namespace Value

mutual

def depth : Value → Nat
  | array items => depthItems items + 1
  | table .braces fields => depthFields fields + 1
  | table _ fields => depthFields fields
  | _ => 0

def depthItems : List Value → Nat
  | [] => 0
  | v :: vs => max (depth v) (depthItems vs)

def depthFields : List (String × Value) → Nat
  | [] => 0
  | (_, v) :: rest => max (depth v) (depthFields rest)

end

def maxDepth : Nat := 80

end Value

def replace (name : String) (v : Value) (fields : Fields) : Fields :=
  fields.map fun (other, old) => (other, if other = name then v else old)

-- Changes the table at the end of a path; tables that are missing on the way are made. Tables in
-- braces are closed, and a dotted key does not lead through tables that have a header of their
-- own. It does lead through a list of tables, to the last one.
def change (dotted : Bool) (f : Origin → Fields → Option Fields) :
    List String → Origin → Fields → Option Fields
  | [], origin, fields => f origin fields
  | name :: path, _, fields =>
    match fields.lookup name with
    | none =>
      let origin := if dotted then .dotted else .implied
      (change dotted f path origin []).map fun inner => fields ++ [(name, .table origin inner)]
    | some (.table origin inner) =>
      if origin = .braces || (dotted && origin = .header) then none
      else (change dotted f path origin inner).map fun inner => replace name (.table origin inner) fields
    | some (.tables before last) =>
      (change dotted f path .header last).map fun last => replace name (.tables before last) fields
    | some _ => none

def add (name : String) (v : Value) (fields : Fields) : Option Fields :=
  if (fields.lookup name).isSome then none else some (fields ++ [(name, v)])

-- Gives a value to a key. The tables that a dotted key leads through belong to dotted keys.
def assign (path : List String) (name : String) (v : Value) (origin : Origin) (fields : Fields) :
    Option Fields :=
  change true (fun inner fields => if path.isEmpty || inner = .dotted then add name v fields else none)
    path origin fields

def startTable (name : String) (fields : Fields) : Option Fields :=
  match fields.lookup name with
  | none => some (fields ++ [(name, .table .header [])])
  | some (.table .implied inner) => some (replace name (.table .header inner) fields)
  | some _ => none

def startItem (name : String) (fields : Fields) : Option Fields :=
  match fields.lookup name with
  | none => some (fields ++ [(name, .tables [] [])])
  | some (.tables before last) => some (replace name (.tables (before ++ [last]) []) fields)
  | some _ => none

-- What has been read so far: all fields, and the path of the table that keys go into.
structure Draft where
  fields : Fields
  current : List String

namespace Draft

def empty : Draft := ⟨[], []⟩

def set (d : Draft) (path : List String) (name : String) (v : Value) : Option Draft :=
  (change false (assign path name v) d.current .header d.fields).map fun fields => { d with fields }

def enter (start : String → Fields → Option Fields) (d : Draft) (path : List String) (name : String) :
    Option Draft :=
  (change false (fun _ fields => start name fields) path .header d.fields).map fun fields =>
    ⟨fields, path ++ [name]⟩

end Draft

end TemplateEngine.Toml
