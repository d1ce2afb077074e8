-- What a reader leaves of a list. A reader that recurses on what is left ends because the type
-- of the rest shows that it is shorter.
namespace TemplateEngine

abbrev Shorter {α : Type} (xs : List α) := { rest : List α // rest.length < xs.length }

abbrev NotLonger {α : Type} (xs : List α) := { rest : List α // rest.length ≤ xs.length }

namespace Shorter

def weaken {α : Type} {xs ys : List α} (r : Shorter xs) (h : xs.length ≤ ys.length) : Shorter ys :=
  ⟨r.val, Nat.lt_of_lt_of_le r.property h⟩

def tail {α : Type} {x : α} {xs : List α} : Shorter (x :: xs) := ⟨xs, Nat.lt_succ_self _⟩

-- What is left of a list is left of one with another element in front.
def cons {α : Type} {x : α} {xs : List α} (r : Shorter xs) : Shorter (x :: xs) :=
  ⟨r.val, Nat.lt_succ_of_lt r.property⟩

def trans {α : Type} {xs : List α} (r : Shorter xs) (s : NotLonger r.val) : Shorter xs :=
  ⟨s.val, Nat.lt_of_le_of_lt s.property r.property⟩

def loosen {α : Type} {xs : List α} (r : Shorter xs) : NotLonger xs := ⟨r.val, Nat.le_of_lt r.property⟩

@[simp]
theorem val_tail {α : Type} {x : α} {xs : List α} : (tail : Shorter (x :: xs)).val = xs := rfl

@[simp]
theorem val_cons {α : Type} {x : α} {xs : List α} (r : Shorter xs) :
    (r.cons : Shorter (x :: xs)).val = r.val := rfl

@[simp]
theorem val_loosen {α : Type} {xs : List α} (r : Shorter xs) : r.loosen.val = r.val := rfl

end Shorter

namespace NotLonger

def weaken {α : Type} {xs ys : List α} (r : NotLonger xs) (h : xs.length ≤ ys.length) : NotLonger ys :=
  ⟨r.val, Nat.le_trans r.property h⟩

def shorter {α : Type} {xs ys : List α} (r : NotLonger xs) (h : xs.length < ys.length) : Shorter ys :=
  ⟨r.val, Nat.lt_of_le_of_lt r.property h⟩

def all {α : Type} {xs : List α} : NotLonger xs := ⟨xs, Nat.le_refl _⟩

def tail {α : Type} {x : α} {xs : List α} : NotLonger (x :: xs) := Shorter.tail.loosen

def cons {α : Type} {x : α} {xs : List α} (r : NotLonger xs) : Shorter (x :: xs) :=
  ⟨r.val, Nat.lt_succ_of_le r.property⟩

@[simp]
theorem val_cons {α : Type} {x : α} {xs : List α} (r : NotLonger xs) :
    (r.cons : Shorter (x :: xs)).val = r.val := rfl

def drop {α : Type} (n : Nat) (xs : List α) : NotLonger xs := ⟨xs.drop n, List.length_drop ▸ Nat.sub_le _ _⟩

def dropWhile {α : Type} (p : α → Bool) (xs : List α) : NotLonger xs :=
  ⟨xs.dropWhile p, (List.dropWhile_suffix p).length_le⟩

def trans {α : Type} {xs : List α} (r : NotLonger xs) (s : NotLonger r.val) : NotLonger xs :=
  ⟨s.val, Nat.le_trans s.property r.property⟩

def transShorter {α : Type} {xs : List α} (r : NotLonger xs) (s : Shorter r.val) : Shorter xs :=
  ⟨s.val, Nat.lt_of_lt_of_le s.property r.property⟩

end NotLonger

end TemplateEngine
