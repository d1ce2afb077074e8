-- Edit distance between texts and the closest candidates to a text.
namespace TemplateEngine.Text

-- One row of the distance table from the row above it. `left` is the entry just written and
-- `diagonal` the entry above it; the row above continues with `above`.
def distanceRow (x : Char) : List Char → List Nat → Nat → Nat → List Nat
  | y :: ys, up :: above, diagonal, left =>
    let here := min (min (left + 1) (up + 1)) (diagonal + if x = y then 0 else 1)
    here :: distanceRow x ys above up here
  | _, _, _, _ => []

def nextRow (b : List Char) (row : List Nat) (x : Char) : List Nat :=
  match row with
  | corner :: above => (corner + 1) :: distanceRow x b above corner (corner + 1)
  | [] => []

-- The least number of insertions, deletions and substitutions of single characters that turn
-- one text into the other.
def distance (a b : List Char) : Nat :=
  ((a.foldl (nextRow b) (List.range (b.length + 1))).getLast?).getD 0

-- Half of the characters may differ, and one in any case.
def tolerance (target : List Char) : Nat := max (target.length * 50 / 100) 1

def maxSuggestions : Nat := 3

-- Candidates are ordered by distance, then by name.
def closer (a b : Nat × String) : Bool :=
  a.1 < b.1 || (a.1 == b.1 && !(b.2 < a.2))

-- The candidates within the tolerance of the target, closest first.
def suggest (target : String) (candidates : List String) : List String :=
  let scored := candidates.map fun c => (distance target.toList c.toList, c)
  let near := scored.filter fun (d, _) => d ≤ tolerance target.toList
  ((near.mergeSort closer).take maxSuggestions).map (·.2)

end TemplateEngine.Text
