import TemplateEngine.Text.Distance

-- The suggestions for a name are the near names that come first, and they repeat a name that the
-- candidates repeat.
namespace TemplateEngine.Text

section Ranking

variable {α : Type} {r : α → α → Prop} {xs : List α}

-- What is cut off from an ordered list comes after everything that is kept.
theorem full_of_not_mem_take {x : α} {k : Nat} (hordered : xs.Pairwise r) (hx : x ∈ xs) (hcut : x ∉ xs.take k) :
    (xs.take k).length = k ∧ ∀ y ∈ xs.take k, r y x := by
  rw [← List.take_append_drop k xs] at hordered hx
  have hrest : x ∈ xs.drop k := (List.mem_append.mp hx).resolve_left hcut
  have hlong : k < xs.length := by
    have hpos := List.length_pos_of_mem hrest
    rw [List.length_drop] at hpos
    omega
  refine ⟨List.length_take_of_le (Nat.le_of_lt hlong), fun y hy => ?_⟩
  exact (List.pairwise_append.mp hordered).2.2 y hy x hrest

theorem mem_take_succ_of_head {x : α} (k : Nat) (hanti : ∀ a b, r a b → r b a → a = b)
    (hordered : (x :: xs).Pairwise r) (hx : x ∈ xs) : x ∈ xs.take (k + 1) := by
  cases xs with
  | nil => cases hx
  | cons y ys =>
    rw [List.take_succ_cons]
    rcases List.mem_cons.mp hx with rfl | hlater
    · exact List.mem_cons_self
    · have hxy : r x y := (List.pairwise_cons.mp hordered).1 y List.mem_cons_self
      have hyx : r y x := (List.pairwise_cons.mp (List.pairwise_cons.mp hordered).2).1 x hlater
      rw [hanti x y hxy hyx]
      exact List.mem_cons_self

-- Equal entries of an ordered list stand side by side, so what is kept repeats an entry exactly when
-- one before the last that is kept is repeated in the list.
theorem nodup_take_succ_iff [DecidableEq α] (hanti : ∀ a b, r a b → r b a → a = b)
    (hordered : xs.Pairwise r) (k : Nat) :
    (xs.take (k + 1)).Nodup ↔ ∀ x ∈ xs.take k, xs.count x = 1 := by
  induction xs generalizing k with
  | nil => simp
  | cons x xs ih =>
    have hlater := (List.pairwise_cons.mp hordered).2
    cases k with
    | zero => simp
    | succ k =>
      have hcount (hnew : x ∉ xs) : ∀ y ∈ xs.take k, (x :: xs).count y = xs.count y := by
        intro y hy
        refine List.count_cons_of_ne ?_
        rintro rfl
        exact hnew (List.mem_of_mem_take hy)
      rw [List.take_succ_cons, List.take_succ_cons, List.nodup_cons, ih hlater k, List.forall_mem_cons,
        List.count_cons_self]
      constructor
      · rintro ⟨hx, hrest⟩
        have hnew : x ∉ xs := fun hmem => hx (mem_take_succ_of_head k hanti hordered hmem)
        refine ⟨by rw [List.count_eq_zero_of_not_mem hnew], fun y hy => ?_⟩
        rw [hcount hnew y hy]
        exact hrest y hy
      · rintro ⟨hx, hrest⟩
        have hnew : x ∉ xs := List.count_eq_zero.mp (by omega)
        refine ⟨fun hmem => hnew (List.mem_of_mem_take hmem), fun y hy => ?_⟩
        rw [← hcount hnew y hy]
        exact hrest y hy

end Ranking

-- The order of the suggestions for a name.
def Before (target a b : String) : Prop :=
  distance target.toList a.toList < distance target.toList b.toList ∨
    distance target.toList a.toList = distance target.toList b.toList ∧ a < b

def Near (target name : String) : Prop := distance target.toList name.toList ≤ tolerance target.toList

instance (target name : String) : Decidable (Near target name) := inferInstanceAs (Decidable (_ ≤ _))

section Order

variable {target a b : String}

theorem Before.asymm (h : Before target a b) (h' : Before target b a) : False := by
  rcases h with h | ⟨h, hab⟩ <;> rcases h' with h' | ⟨h', hba⟩
  · omega
  · omega
  · omega
  · exact String.lt_irrefl a (String.lt_trans hab hba)

theorem before_or_eq_antisymm (h : Before target a b ∨ a = b) (h' : Before target b a ∨ b = a) : a = b := by
  rcases h with h | h
  · rcases h' with h' | h'
    · exact (h.asymm h').elim
    · exact h'.symm
  · exact h

end Order

theorem closer_iff {a b : Nat × String} : closer a b ↔ a.1 < b.1 ∨ a.1 = b.1 ∧ a.2 ≤ b.2 := by
  simp only [closer, Bool.or_eq_true, Bool.and_eq_true, decide_eq_true_iff, beq_iff_eq, Bool.not_eq_true',
    decide_eq_false_iff_not, String.not_lt]

theorem closer_trans (a b c : Nat × String) (h : closer a b) (h' : closer b c) : closer a c := by
  rw [closer_iff] at h h' ⊢
  rcases h with h | ⟨h, hab⟩ <;> rcases h' with h' | ⟨h', hbc⟩
  · exact .inl (Nat.lt_trans h h')
  · exact .inl (h' ▸ h)
  · exact .inl (h ▸ h')
  · exact .inr ⟨h.trans h', String.le_trans hab hbc⟩

theorem closer_total (a b : Nat × String) : closer a b || closer b a := by
  rw [Bool.or_eq_true, closer_iff, closer_iff]
  rcases Nat.lt_trichotomy a.1 b.1 with h | h | h
  · exact .inl (.inl h)
  · rcases String.le_total a.2 b.2 with hab | hba
    · exact .inl (.inr ⟨h, hab⟩)
    · exact .inr (.inr ⟨h.symm, hba⟩)
  · exact .inr (.inl h)

def scored (target name : String) : Nat × String := (distance target.toList name.toList, name)

theorem before_or_eq_of_closer {target a b : String} (h : closer (scored target a) (scored target b)) :
    Before target a b ∨ a = b := by
  rcases closer_iff.mp h with h | ⟨h, hab⟩
  · exact .inl (.inl h)
  · by_cases hba : b ≤ a
    · exact .inr (String.le_antisymm hab hba)
    · exact .inl (.inr ⟨h, String.not_le.mp hba⟩)

-- The near names in the order of the suggestions, all of them and with their repetitions.
def ranking (target : String) (names : List String) : List String :=
  (((names.filter fun name => Near target name).map (scored target)).mergeSort closer).map (·.2)

section Ranked

variable (target : String) (names : List String)

theorem suggest_eq_take : suggest target names = (ranking target names).take maxSuggestions := by
  unfold suggest ranking
  rw [List.map_take, List.filter_map]
  rfl

theorem ranking_perm : (ranking target names).Perm (names.filter fun name => Near target name) := by
  have hperm := (List.mergeSort_perm ((names.filter fun name => Near target name).map (scored target))
    closer).map (·.2)
  rw [List.map_map] at hperm
  exact hperm.trans (List.Perm.of_eq (List.map_id _))

theorem mem_ranking {name : String} : name ∈ ranking target names ↔ name ∈ names ∧ Near target name := by
  rw [(ranking_perm target names).mem_iff, List.mem_filter, decide_eq_true_iff]

theorem ranking_ordered : (ranking target names).Pairwise fun a b => Before target a b ∨ a = b := by
  have hsorted : (((names.filter fun name => Near target name).map (scored target)).mergeSort
      closer).Pairwise (closer · ·) :=
    List.pairwise_mergeSort closer_trans closer_total _
  refine List.pairwise_map.mpr (hsorted.imp_of_mem fun {a b} ha hb hab => ?_)
  obtain ⟨x, -, rfl⟩ := List.mem_map.mp (List.mem_mergeSort.mp ha)
  obtain ⟨y, -, rfl⟩ := List.mem_map.mp (List.mem_mergeSort.mp hb)
  exact before_or_eq_of_closer hab

end Ranked

-- The suggestions for a name among some names: near ones in their order, as many as fit, and a near
-- name is left out for names before it only.
structure Closest (target : String) (names suggestions : List String) : Prop where
  near : ∀ s ∈ suggestions, s ∈ names ∧ Near target s
  ordered : suggestions.Pairwise fun a b => Before target a b ∨ a = b
  few : suggestions.length ≤ maxSuggestions
  full : ∀ name ∈ names, Near target name → name ∉ suggestions →
    suggestions.length = maxSuggestions ∧ ∀ s ∈ suggestions, Before target s name

theorem closest_suggest (target : String) (names : List String) :
    Closest target names (suggest target names) := by
  have hordered := ranking_ordered target names
  rw [suggest_eq_take]
  constructor
  case near => exact fun s hs => (mem_ranking target names).mp (List.mem_of_mem_take hs)
  case ordered => exact hordered.sublist (List.take_sublist _ _)
  case few => exact List.length_take_le _ _
  case full =>
    intro name hname hnear hcut
    obtain ⟨hlength, hbefore⟩ :=
      full_of_not_mem_take hordered ((mem_ranking target names).mpr ⟨hname, hnear⟩) hcut
    refine ⟨hlength, fun s hs => (hbefore s hs).resolve_right ?_⟩
    rintro rfl
    exact hcut hs

-- A name is suggested twice exactly when one before the last suggestion is among the names twice.
theorem nodup_suggest_iff (target : String) (names : List String) :
    (suggest target names).Nodup ↔
      ∀ s ∈ (suggest target names).take (maxSuggestions - 1), names.count s = 1 := by
  have hcount (s : String) (hs : s ∈ (ranking target names).take (maxSuggestions - 1)) :
      (ranking target names).count s = names.count s := by
    have hnear : Near target s := ((mem_ranking target names).mp (List.mem_of_mem_take hs)).2
    rw [(ranking_perm target names).count_eq, List.count_filter]
    exact decide_eq_true hnear
  have hnodup := nodup_take_succ_iff (fun _ _ => before_or_eq_antisymm) (ranking_ordered target names)
    (maxSuggestions - 1)
  rw [suggest_eq_take, List.take_take, Nat.min_eq_left (Nat.sub_le maxSuggestions 1)]
  exact hnodup.trans (forall₂_congr fun s hs => by rw [hcount s hs])

end TemplateEngine.Text
