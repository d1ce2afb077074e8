import TemplateEngine.Text.Blank
import TemplateEngine.Text.Letter
import Mathlib.Data.List.TakeWhile
import Mathlib.Tactic.ByContra

-- Blanks around a text: trimming takes them all away and nothing else.
namespace TemplateEngine.Text

def Blank (cs : List Char) : Prop := ∀ c ∈ cs, isBlank c = true

theorem Blank.append {cs ds : List Char} (h : Blank cs) (h' : Blank ds) : Blank (cs ++ ds) :=
  List.forall_mem_append.mpr ⟨h, h'⟩

theorem blank_nil : Blank [] := by simp [Blank]

theorem blank_space : Blank [' '] := by simp [Blank, isBlank]

theorem blank_takeWhile (cs : List Char) : Blank (cs.takeWhile isBlank) :=
  List.all_eq_true.mp List.all_takeWhile

-- A text is its trimmed part between blanks.
theorem exists_trim (cs : List Char) :
    ∃ front back, Blank front ∧ Blank back ∧ cs = front ++ trim cs ++ back := by
  refine ⟨cs.takeWhile isBlank, ((trimLeft cs).reverse.takeWhile isBlank).reverse, ?_, ?_, ?_⟩
  · exact blank_takeWhile cs
  · intro c hc
    exact blank_takeWhile _ c (List.mem_reverse.mp hc)
  · have hright : trim cs ++ ((trimLeft cs).reverse.takeWhile isBlank).reverse = trimLeft cs := by
      unfold trim trimRight
      rw [← List.reverse_append, List.takeWhile_append_dropWhile, List.reverse_reverse]
    rw [List.append_assoc, hright]
    exact List.takeWhile_append_dropWhile.symm

theorem trimLeft_append {front : List Char} (h : Blank front) (cs : List Char) :
    trimLeft (front ++ cs) = trimLeft cs :=
  List.dropWhile_append_of_pos h

theorem trimRight_append {back : List Char} (h : Blank back) (cs : List Char) :
    trimRight (cs ++ back) = trimRight cs := by
  unfold trimRight
  rw [List.reverse_append, List.dropWhile_append_of_pos]
  exact fun c hc => h c (List.mem_reverse.mp hc)

theorem trim_append {back : List Char} (h : Blank back) (cs : List Char) : trim (cs ++ back) = trim cs := by
  unfold trim
  have hleft : trimLeft (cs ++ back) = if (trimLeft cs).isEmpty then [] else trimLeft cs ++ back := by
    unfold trimLeft
    rw [List.dropWhile_append, List.dropWhile_eq_nil_iff.mpr h]
  rw [hleft]
  split
  · next hempty => rw [List.isEmpty_iff.mp hempty]
  · exact trimRight_append h _

theorem trim_pad {front back : List Char} (hfront : Blank front) (hback : Blank back) (cs : List Char) :
    trim (front ++ cs ++ back) = trim cs := by
  rw [trim_append hback]
  unfold trim
  rw [trimLeft_append hfront]

@[simp] theorem trim_trim (cs : List Char) : trim (trim cs) = trim cs := by
  obtain ⟨front, back, hfront, hback, hsplit⟩ := exists_trim cs
  exact ((congrArg trim hsplit).trans (trim_pad hfront hback _)).symm

-- A trimmed text has no blank at either end.
theorem not_blank_head {c : Char} {cs : List Char} (h : trim (c :: cs) = c :: cs) : isBlank c = false := by
  by_contra hc
  have hblank : Blank [c] := by simpa [Blank] using hc
  have hpad : trim (c :: cs) = trim cs := by simpa using trim_pad hblank blank_nil cs
  have hlength := length_trim_le cs
  rw [← hpad, h, List.length_cons] at hlength
  omega

theorem not_blank_last {d : Char} {cs : List Char} (h : trim (cs ++ [d]) = cs ++ [d]) :
    isBlank d = false := by
  by_contra hd
  have hblank : Blank [d] := by simpa [Blank] using hd
  have hlength := length_trim_le cs
  rw [← trim_append hblank cs, h, List.length_append, List.length_singleton] at hlength
  omega

theorem trim_of_ends {c d : Char} (hc : isBlank c = false) (hd : isBlank d = false) (cs : List Char) :
    trim (c :: (cs ++ [d])) = c :: (cs ++ [d]) := by
  unfold trim trimLeft trimRight
  rw [List.dropWhile_cons_of_neg (by simp [hc])]
  have hreverse : (c :: (cs ++ [d])).reverse = d :: (c :: cs).reverse := by simp
  rw [hreverse, List.dropWhile_cons_of_neg (by simp [hd]), ← hreverse, List.reverse_reverse]

theorem trim_between {front back : List Char} (hfront : front ≠ []) (hback : back ≠ [])
    (htrimmed : trim front = front) (htrimmed' : trim back = back) (gap : List Char) :
    trim (front ++ gap ++ back) = front ++ gap ++ back := by
  obtain ⟨c, front, rfl⟩ := List.exists_cons_of_ne_nil hfront
  obtain ⟨back, d, rfl⟩ := (List.eq_nil_or_concat back).resolve_left hback
  rw [List.concat_eq_append] at htrimmed' ⊢
  have hends := trim_of_ends (not_blank_head htrimmed) (not_blank_last htrimmed') (front ++ gap ++ back)
  simpa using hends

theorem trim_of_not_blank {cs : List Char} (h : ∀ c ∈ cs, isBlank c = false) : trim cs = cs := by
  cases cs with
  | nil => rfl
  | cons c cs =>
    rcases List.eq_nil_or_concat cs with rfl | ⟨front, d, rfl⟩
    · have hc := h c (by simp)
      simp [trim, trimLeft, trimRight, hc]
    · rw [List.concat_eq_append] at h ⊢
      exact trim_of_ends (h c (by simp)) (h d (by simp)) front

-- The blank characters by their code points.
def blankCodes : List Nat :=
  [9, 10, 11, 12, 13, 32, 0x85, 0xA0, 0x1680, 0x2000, 0x2001, 0x2002, 0x2003, 0x2004, 0x2005, 0x2006,
    0x2007, 0x2008, 0x2009, 0x200A, 0x2028, 0x2029, 0x202F, 0x205F, 0x3000]

theorem mem_blankCodes {c : Char} (h : isBlank c = true) : c.toNat ∈ blankCodes := by
  simp only [isBlank, Bool.or_eq_true, Bool.and_eq_true, decide_eq_true_eq, beq_iff_eq] at h
  simp only [blankCodes, List.mem_cons, List.not_mem_nil, or_false]
  omega

theorem label_blankCodes : ∀ n ∈ blankCodes,
    (continuesName (Char.ofNat n) || Char.ofNat n == '-') = false := by
  decide +kernel

-- No blank stands in a label.
theorem not_blank_of_label {c : Char} (h : (continuesName c || c == '-') = true) : isBlank c = false := by
  cases hblank : isBlank c with
  | false => rfl
  | true =>
    have hlabel := label_blankCodes _ (mem_blankCodes hblank)
    rw [Char.ofNat_toNat, h] at hlabel
    cases hlabel

theorem continuesName_of_startsName {c : Char} (h : startsName c = true) : continuesName c = true := by
  simp only [startsName, Bool.or_eq_true] at h
  simp only [continuesName, isLetterOrNumeral, Bool.or_eq_true]
  exact h.imp .inl id

theorem forall_mem_of_isLabel {cs : List Char} (h : isLabel cs = true) :
    ∀ c ∈ cs, (continuesName c || c == '-') = true := by
  cases cs with
  | nil => simp
  | cons c cs =>
    simp only [isLabel, Bool.and_eq_true, List.all_eq_true] at h
    exact List.forall_mem_cons.mpr ⟨by rw [continuesName_of_startsName h.1, Bool.true_or], h.2⟩

theorem forall_mem_of_isName {cs : List Char} (h : isName cs = true) : ∀ c ∈ cs, continuesName c = true := by
  cases cs with
  | nil => simp
  | cons c cs =>
    simp only [isName, Bool.and_eq_true, List.all_eq_true] at h
    exact List.forall_mem_cons.mpr ⟨continuesName_of_startsName h.1, h.2⟩

end TemplateEngine.Text
