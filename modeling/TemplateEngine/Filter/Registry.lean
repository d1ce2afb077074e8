import TemplateEngine.Text.Distance
import TemplateEngine.Value

-- Filters and the names they are registered under.
namespace TemplateEngine

-- A filter turns a value into another one or fails with a message. The raw filter changes no
-- value; it turns escaping off.
inductive Filter where
  | transform (f : Value → Except String Value)
  | raw

structure Registry where
  entries : List (String × Filter)

namespace Registry

def basic : Registry := ⟨[("raw", .raw)]⟩

def get? (r : Registry) (name : String) : Option Filter := r.entries.lookup name

def contains (r : Registry) (name : String) : Bool := (r.get? name).isSome

-- Registers a filter, in place of another one of that name.
def insert (r : Registry) (name : String) (filter : Filter) : Registry :=
  ⟨(name, filter) :: r.entries.filter fun (other, _) => other != name⟩

def add (r : Registry) (name : String) (f : Value → Except String Value) : Registry :=
  r.insert name (.transform f)

def addAll (r : Registry) (all : List (String × (Value → Except String Value))) : Registry :=
  all.foldl (fun r (name, f) => r.add name f) r

def names (r : Registry) : List String :=
  (r.entries.map (·.1)).mergeSort fun a b => !(b < a)

def suggestions (r : Registry) (name : String) : List String := Text.suggest name r.names

@[simp]
theorem get?_insert_self (r : Registry) (name : String) (filter : Filter) :
    (r.insert name filter).get? name = some filter := by
  simp [insert, get?]

theorem get?_insert_ne {r : Registry} {name other : String} (filter : Filter) (h : other ≠ name) :
    (r.insert name filter).get? other = r.get? other := by
  obtain ⟨entries⟩ := r
  simp only [insert, get?, List.lookup_cons, beq_false_of_ne h]
  induction entries with
  | nil => rfl
  | cons entry entries ih =>
    obtain ⟨kept, filter⟩ := entry
    by_cases hkept : kept = name
    · subst hkept
      simpa [List.lookup_cons, beq_false_of_ne h] using ih
    · simp only [bne_iff_ne, ne_eq, hkept, not_false_eq_true, List.filter_cons_of_pos,
        List.lookup_cons, ih]

-- A filter of a registry to which others were added is one of those, or was there before.
theorem get?_addAll (r : Registry) (extra : List (String × (Value → Except String Value))) (name : String) :
    (∃ f, (name, f) ∈ extra ∧ (r.addAll extra).get? name = some (.transform f)) ∨
      (r.addAll extra).get? name = r.get? name := by
  induction extra generalizing r with
  | nil => exact .inr rfl
  | cons entry extra ih =>
    obtain ⟨added, f⟩ := entry
    rw [addAll, List.foldl_cons, ← addAll]
    rcases ih (r.add added f) with ⟨g, hg, hget⟩ | hget
    · exact .inl ⟨g, by simp [hg], hget⟩
    · by_cases hname : name = added
      · subst hname
        exact .inl ⟨f, by simp, hget.trans (get?_insert_self r name _)⟩
      · exact .inr (hget.trans (get?_insert_ne _ hname))

end Registry

end TemplateEngine
