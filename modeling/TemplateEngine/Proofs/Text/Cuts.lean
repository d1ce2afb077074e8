import TemplateEngine.Text.Search
import Mathlib.Data.List.Infix

-- A text is cut at the first place where a pattern stands in it, and only where there is none is it
-- not cut at all.
namespace TemplateEngine.Text

theorem exactly_of_eq {pattern cs rest : List Char} (h : cs = pattern ++ rest) :
    ∃ r : NotLonger cs, exactly pattern cs = some r ∧ r.val = rest := by
  subst h
  exact Option.map_eq_some_iff.mp (exactly_append pattern rest)

theorem exactly_eq_none_iff {pattern cs : List Char} :
    exactly pattern cs = none ↔ ¬pattern <+: cs := by
  constructor
  · rintro h ⟨rest, rfl⟩
    obtain ⟨r, hr, -⟩ := exactly_of_eq (rfl : pattern ++ rest = pattern ++ rest)
    rw [h] at hr
    cases hr
  · intro h
    rw [Option.eq_none_iff_forall_ne_some]
    intro r hr
    exact h ⟨r.val, (exactly_eq_some hr).symm⟩

theorem cutWith_first {accepts : Matcher} {cs before : List Char} {rest : NotLonger cs}
    (h : cutWith accepts cs = some (before, rest)) :
    ∀ k < before.length, accepts (cs.drop k) = none := by
  induction cs generalizing before with
  | nil =>
    unfold cutWith at h
    split at h <;> cases h
    simp
  | cons c cs ih =>
    unfold cutWith at h
    split at h
    · cases h
      simp
    · next hnone =>
      obtain ⟨⟨front, r⟩, hr, he⟩ := Option.map_eq_some_iff.mp h
      cases he
      intro k hk
      cases k with
      | zero => exact hnone
      | succ k => exact ih hr k (Nat.lt_of_succ_lt_succ hk)

-- A pattern that is cut off does not begin in the text before it.
theorem cutWith_exactly_first {pattern cs before : List Char} {rest : NotLonger cs}
    (h : cutWith (exactly pattern) cs = some (before, rest)) (hpattern : pattern ≠ []) :
    ¬pattern <:+: before ++ pattern.dropLast := by
  rintro ⟨front, back, hwithin⟩
  have hlast := List.dropLast_append_getLast hpattern
  have hlength := congrArg List.length hwithin
  have hfilled := List.length_pos_of_ne_nil hpattern
  simp only [List.length_append, List.length_dropLast] at hlength
  have hwhole : cs = front ++ (pattern ++ (back ++ pattern.getLast hpattern :: rest.val)) :=
    calc
      cs = before ++ pattern ++ rest.val := cutWith_exactly h
      _ = before ++ (pattern.dropLast ++ [pattern.getLast hpattern]) ++ rest.val := by rw [hlast]
      _ = before ++ pattern.dropLast ++ pattern.getLast hpattern :: rest.val := by simp
      _ = _ := by rw [← hwithin]; simp
  have hnone := cutWith_first h front.length (by omega)
  have hdrop : cs.drop front.length = pattern ++ (back ++ pattern.getLast hpattern :: rest.val) :=
    (congrArg (List.drop front.length) hwhole).trans List.drop_left
  rw [hdrop] at hnone
  exact exactly_eq_none_iff.mp hnone (List.prefix_append _ _)

theorem cutWith_exactly_eq_none_iff {pattern cs : List Char} :
    cutWith (exactly pattern) cs = none ↔ ¬pattern <:+: cs := by
  induction cs with
  | nil =>
    rw [List.infix_nil, ← List.prefix_nil, ← exactly_eq_none_iff]
    unfold cutWith
    split <;> simp_all
  | cons c cs ih =>
    rw [List.infix_cons_iff, not_or, ← exactly_eq_none_iff, ← ih]
    conv => lhs; unfold cutWith
    split <;> simp_all

theorem occurs_iff {pattern cs : List Char} : occurs pattern cs = true ↔ pattern <:+: cs := by
  rw [← not_iff_not, ← cutWith_exactly_eq_none_iff]
  simp [occurs, cut]

-- No pattern stands further to the front than the first one.
theorem length_le_of_first {pattern before other rest back : List Char} (hpattern : pattern ≠ [])
    (hfirst : ¬pattern <:+: before ++ pattern.dropLast)
    (h : before ++ pattern ++ rest = other ++ pattern ++ back) : before.length ≤ other.length := by
  by_contra hlength
  have hfilled := List.length_pos_of_ne_nil hpattern
  have hbefore : before ++ pattern.dropLast <+: before ++ pattern ++ rest :=
    ((List.prefix_append_right_inj before).mpr (List.dropLast_prefix pattern)).trans
      (List.prefix_append _ _)
  have hother : other ++ pattern <+: before ++ pattern ++ rest := h ▸ List.prefix_append _ _
  have hwithin : other ++ pattern <+: before ++ pattern.dropLast := by
    refine List.prefix_of_prefix_length_le hother hbefore ?_
    simp only [List.length_append, List.length_dropLast]
    omega
  exact hfirst ((List.suffix_append other pattern).isInfix.trans hwithin.isInfix)

theorem cutWith_exactly_of_eq {pattern cs before rest : List Char} (hpattern : pattern ≠ [])
    (hfirst : ¬pattern <:+: before ++ pattern.dropLast) (h : cs = before ++ pattern ++ rest) :
    ∃ r : NotLonger cs, cutWith (exactly pattern) cs = some (before, r) ∧ r.val = rest := by
  cases hcut : cutWith (exactly pattern) cs with
  | none => exact absurd ⟨before, rest, h.symm⟩ (cutWith_exactly_eq_none_iff.mp hcut)
  | some found =>
    obtain ⟨other, r⟩ := found
    have hsplit : before ++ pattern ++ rest = other ++ pattern ++ r.val :=
      h.symm.trans (cutWith_exactly hcut)
    have hlength : before.length = other.length :=
      Nat.le_antisymm (length_le_of_first hpattern hfirst hsplit)
        (length_le_of_first hpattern (cutWith_exactly_first hcut hpattern) hsplit.symm)
    rw [List.append_assoc, List.append_assoc] at hsplit
    obtain ⟨rfl, hrest⟩ := List.append_inj hsplit hlength
    exact ⟨r, rfl, (List.append_cancel_left hrest).symm⟩

theorem cut_of_first {pattern before : List Char} (hpattern : pattern ≠ [])
    (hfirst : ¬pattern <:+: before ++ pattern.dropLast) (rest : List Char) :
    cut pattern (before ++ pattern ++ rest) = some (before, rest) := by
  obtain ⟨r, hcut, hrest⟩ := cutWith_exactly_of_eq hpattern hfirst (rfl : _ = before ++ pattern ++ rest)
  exact Option.map_eq_some_iff.mpr ⟨_, hcut, congrArg (before, ·) hrest⟩

theorem cut_eq_none_iff {pattern cs : List Char} : cut pattern cs = none ↔ ¬pattern <:+: cs := by
  rw [cut, Option.map_eq_none_iff, cutWith_exactly_eq_none_iff]

theorem cutLast_eq_none_iff {pattern cs : List Char} : cutLast pattern cs = none ↔ ¬pattern <:+: cs := by
  induction cs with
  | nil => rw [cutLast, Option.map_eq_none_iff, exactly_eq_none_iff, List.infix_nil, List.prefix_nil]
  | cons c cs ih =>
    rw [List.infix_cons_iff, not_or, ← exactly_eq_none_iff, ← ih, cutLast]
    split <;> simp_all

-- The last place of a pattern is the one that no other place of it overlaps or follows.
theorem cutLast_of_last {pattern rest : List Char} (hlast : ¬pattern <:+: pattern.tail ++ rest)
    (before : List Char) : cutLast pattern (before ++ pattern ++ rest) = some (before, rest) := by
  induction before with
  | nil =>
    cases pattern with
    | nil => exact absurd List.nil_infix hlast
    | cons p ps =>
      have hnone : cutLast (p :: ps) (ps ++ rest) = none := cutLast_eq_none_iff.mpr hlast
      obtain ⟨r, hr, hrest⟩ := exactly_of_eq (rfl : p :: ps ++ rest = p :: ps ++ rest)
      rw [List.nil_append, List.cons_append, cutLast, hnone]
      exact Option.map_eq_some_iff.mpr ⟨r, hr, by rw [hrest]⟩
  | cons c before ih =>
    rw [List.cons_append, List.cons_append, cutLast, ih]

-- A pattern does not begin where its first character is missing.
theorem infix_append_iff_of_notMem {c : Char} {pattern front cs : List Char} (hfront : c ∉ front) :
    c :: pattern <:+: front ++ cs ↔ c :: pattern <:+: cs := by
  induction front with
  | nil => rfl
  | cons d front ih =>
    obtain ⟨hd, hrest⟩ := List.ne_and_not_mem_of_not_mem_cons hfront
    rw [List.cons_append, List.infix_cons_iff, List.cons_prefix_cons, ih hrest]
    exact or_iff_right fun h => hd h.1

theorem infix_append_cons_iff {c : Char} {pattern front rest : List Char} (hfront : c ∉ front) :
    c :: pattern <:+: front ++ c :: rest ↔ pattern <+: rest ∨ c :: pattern <:+: rest := by
  rw [infix_append_iff_of_notMem hfront, List.infix_cons_iff, List.prefix_cons_inj]

theorem not_infix_of_notMem {c : Char} {pattern cs : List Char} (h : c ∉ cs) : ¬c :: pattern <:+: cs :=
  fun hwithin => h (hwithin.subset (List.mem_cons_self ..))

theorem cut_of_notMem {c : Char} {pattern before : List Char} (hbefore : c ∉ before) (rest : List Char) :
    cut (c :: pattern) (before ++ c :: pattern ++ rest) = some (before, rest) := by
  refine cut_of_first (List.cons_ne_nil _ _) ?_ rest
  rw [infix_append_iff_of_notMem hbefore]
  intro h
  have hlength := h.length_le
  rw [List.length_dropLast, List.length_cons] at hlength
  omega

theorem takeWhile_word {c : Char} {word : List Char} (hword : c ∉ word) (rest : List Char) :
    (word ++ c :: rest).takeWhile (· != c) = word := by
  have hall : ∀ d ∈ word, (d != c) = true := fun d hd => bne_iff_ne.mpr fun h => hword (h ▸ hd)
  rw [List.takeWhile_append_of_pos hall, List.takeWhile_cons_of_neg (by simp), List.append_nil]

-- Two words that end at the same character are the same, if one is the beginning of a text with the other.
theorem word_eq_of_starts {c : Char} {word other rest : List Char} (hword : c ∉ word) (hother : c ∉ other)
    (h : word ++ [c] <+: other ++ c :: rest) : word = other := by
  obtain ⟨back, hback⟩ := h
  rw [List.append_assoc, List.singleton_append] at hback
  calc
    word = (word ++ c :: back).takeWhile (· != c) := (takeWhile_word hword back).symm
    _ = (other ++ c :: rest).takeWhile (· != c) := by rw [hback]
    _ = other := takeWhile_word hother rest

end TemplateEngine.Text
