import TemplateEngine.Markup.Directive
import TemplateEngine.Proofs.Markup.Spans

-- How the directives of tags and the parts of echoes are spelled.
namespace TemplateEngine.Markup

-- A keyword, and its argument if there is one, with any blanks around them.
def Words (body : List Char) (keyword : String) (argument : List Char) : Prop :=
  ∃ front gap back, Text.Blank front ∧ Text.Blank gap ∧ Text.Blank back ∧
    body = front ++ keyword.toList ++ gap ++ argument ++ back ∧
    Text.trim argument = argument ∧ (argument ≠ [] → gap ≠ [])

theorem splitKeyword_words {body argument : List Char} {keyword : String}
    (h : splitKeyword body = (keyword, argument)) : Words body keyword argument := by
  obtain ⟨front, back, hfront, hback, hbody⟩ := Text.exists_trim body
  obtain ⟨hkeyword, hargument⟩ := Prod.mk.inj h
  have hlist : (Text.trim body).takeWhile (fun c => !Text.isBlank c) = keyword.toList := by
    rw [← hkeyword, String.toList_ofList]
  have htrimmed : keyword.toList ++ (Text.trim body).dropWhile (fun c => !Text.isBlank c) =
      Text.trim body := by
    rw [← hlist, List.takeWhile_append_dropWhile]
  rw [hlist] at hargument
  cases hrest : (Text.trim body).dropWhile (fun c => !Text.isBlank c) with
  | nil =>
    rw [hrest, List.append_nil] at htrimmed
    have hnil : argument = [] := by
      rw [← hargument, ← htrimmed, List.drop_eq_nil_of_le (Nat.le_succ _)]
      rfl
    refine ⟨front, [], back, hfront, Text.blank_nil, hback, ?_, ?_, fun hne => absurd hnil hne⟩
    · rw [hnil, htrimmed, List.append_nil, List.append_nil]
      exact hbody
    · rw [hnil]
      rfl
  | cons c rest =>
    have hc : Text.isBlank c = true := by
      have hhead := List.head?_dropWhile_not (fun c => !Text.isBlank c) (Text.trim body)
      rw [hrest] at hhead
      simpa using hhead
    rw [hrest] at htrimmed
    have hdrop : (Text.trim body).drop (keyword.toList.length + 1) = rest := by
      rw [← htrimmed, ← List.drop_drop, List.drop_left]
      rfl
    rw [hdrop] at hargument
    obtain ⟨gap, behind, hgap, hbehind, hsplit⟩ := Text.exists_trim rest
    rw [hargument] at hsplit
    refine ⟨front, c :: gap, behind ++ back, hfront, ?_, hbehind.append hback, ?_, ?_, fun _ => by simp⟩
    · exact List.forall_mem_cons.mpr ⟨hc, hgap⟩
    · calc
        body = front ++ Text.trim body ++ back := hbody
        _ = front ++ (keyword.toList ++ c :: (gap ++ argument ++ behind)) ++ back := by
          rw [← htrimmed, hsplit]
        _ = _ := by simp
    · rw [← hargument, Text.trim_trim]

def isSmall (c : Char) : Bool := 97 ≤ c.toNat && c.toNat ≤ 122

-- A word of small letters, as every keyword is.
structure Word (word : String) : Prop where
  filled : word ≠ ""
  small : word.toList.all isSmall = true

instance (word : String) : Decidable (Word word) :=
  decidable_of_iff (word ≠ "" ∧ word.toList.all isSmall = true)
    ⟨fun h => ⟨h.1, h.2⟩, fun h => ⟨h.filled, h.small⟩⟩

theorem Word.not_blank {word : String} (h : Word word) :
    ∀ c ∈ word.toList, Text.isBlank c = false := by
  intro c hc
  have hsmall := List.all_eq_true.mp h.small c hc
  simp only [isSmall, Bool.and_eq_true, decide_eq_true_eq] at hsmall
  simp only [Text.isBlank, Bool.or_eq_false_iff, Bool.and_eq_false_iff, decide_eq_false_iff_not,
    beq_eq_false_iff_ne]
  omega

theorem splitKeyword_of_words {body argument : List Char} {keyword : String} (hkeyword : Word keyword)
    (h : Words body keyword argument) : splitKeyword body = (keyword, argument) := by
  obtain ⟨front, gap, back, hfront, hgap, hback, rfl, hargument, hsep⟩ := h
  have hblank := hkeyword.not_blank
  have hkeyword : keyword.toList ≠ [] := by simpa using hkeyword.filled
  have htake (cs : List Char) (hcs : ∀ c ∈ cs.head?, Text.isBlank c = true) :
      (keyword.toList ++ cs).takeWhile (fun c => !Text.isBlank c) = keyword.toList := by
    rw [List.takeWhile_append_of_pos (by simpa using hblank)]
    cases cs with
    | nil => simp
    | cons c cs => simp [hcs c rfl]
  unfold splitKeyword
  dsimp only
  by_cases hnil : argument = []
  · subst hnil
    have htrim : Text.trim (front ++ keyword.toList ++ gap ++ [] ++ back) = keyword.toList := by
      rw [List.append_nil, List.append_assoc _ gap back, Text.trim_pad hfront (hgap.append hback),
        Text.trim_of_not_blank hblank]
    have hword := htake [] (by simp)
    rw [List.append_nil] at hword
    rw [htrim, hword, List.drop_eq_nil_of_le (Nat.le_succ _), String.ofList_toList]
    rfl
  · obtain ⟨b, gap, rfl⟩ := List.exists_cons_of_ne_nil (hsep hnil)
    obtain ⟨hb, hgap⟩ := List.forall_mem_cons.mp hgap
    have htrim : Text.trim (front ++ keyword.toList ++ b :: gap ++ argument ++ back) =
        keyword.toList ++ b :: (gap ++ argument) := by
      have hmiddle := Text.trim_between hkeyword hnil (Text.trim_of_not_blank hblank) hargument (b :: gap)
      rw [List.append_assoc, List.cons_append] at hmiddle
      rw [← hmiddle, ← Text.trim_pad hfront hback (keyword.toList ++ b :: (gap ++ argument))]
      simp
    have hdrop : (keyword.toList ++ b :: (gap ++ argument)).drop (keyword.toList.length + 1) =
        gap ++ argument := by
      rw [← List.drop_drop, List.drop_left]
      rfl
    have hrest : Text.trim (gap ++ argument) = argument := by
      simpa [hargument] using Text.trim_pad hgap Text.blank_nil argument
    rw [htrim, htake _ (by simpa using hb), hdrop, hrest, String.ofList_toList]

-- The argument of a directive, in the places where it may have one.
def Directive.Takes (argument : List Char) : Directive → Prop
  | openIf text | elseIf text | openLoop _ text => argument = text.toList ∧ text ≠ ""
  | openBlock name => argument = name.toList ∧ Text.isLabel argument = true
  | extending name | including name =>
    ∃ quote, (quote = '\'' ∨ quote = '"') ∧ argument = quote :: (name.toList ++ [quote]) ∧ name ≠ ""
  | openElse | endIf | endLoop _ | parent => argument = []
  | endBlock => True

-- `elif` and `else if` spell `elseif` too.
def Directive.Variant (body : List Char) : Directive → Prop
  | elseIf condition => condition ≠ "" ∧ (Words body "elif" condition.toList ∨
      ∃ rest, Words body "else" ("if ".toList ++ rest) ∧ Text.trim rest = condition.toList)
  | _ => False

-- Whether the body of a tag spells a directive.
def Directive.Spelled (body : List Char) (d : Directive) : Prop :=
  (∃ argument, Words body d.keyword argument ∧ d.Takes argument) ∨ d.Variant body

theorem Directive.keyword_word (d : Directive) : Word d.keyword := by
  cases d with
  | openLoop kind | endLoop kind =>
    cases kind <;> dsimp only [keyword, LoopKind.keyword, LoopKind.endKeyword] <;> decide
  | _ => dsimp only [keyword]; decide

theorem unquoted?_concat (quote c last : Char) (inner : List Char) :
    unquoted? quote (c :: (inner ++ [last])) =
      if c = quote ∧ last = quote then some inner else none := by
  have hlast : (c :: (inner ++ [last])).tail.getLast? = some last := by simp
  have hinner : (c :: (inner ++ [last])).tail.dropLast = inner := by simp
  unfold unquoted?
  split
  · next h => cases h
  · next d h => simp at h
  · next d rest _ h =>
    rw [h, List.tail_cons] at hlast hinner
    rw [hlast, hinner, ← (List.cons.inj h).1]
    simp

theorem unquoted?_eq_some_iff {quote : Char} {cs inner : List Char} :
    unquoted? quote cs = some inner ↔ cs = quote :: (inner ++ [quote]) := by
  constructor
  · intro h
    cases cs with
    | nil => cases h
    | cons c rest =>
      rcases List.eq_nil_or_concat rest with rfl | ⟨front, last, rfl⟩
      · cases h
      · rw [List.concat_eq_append, unquoted?_concat] at h
        split at h
        · next hquote =>
          cases h
          rw [List.concat_eq_append, hquote.1, hquote.2]
        · cases h
  · rintro rfl
    rw [unquoted?_concat, if_pos ⟨rfl, rfl⟩]

theorem readArgument_eq_ok_iff {keyword text : String} {args : List Char} :
    readArgument keyword args = .ok text ↔ args = text.toList ∧ text ≠ "" := by
  unfold readArgument
  constructor
  · intro h
    split at h
    · cases h
    · next hargs =>
      cases h
      exact ⟨String.toList_ofList.symm, by simpa using hargs⟩
  · rintro ⟨rfl, htext⟩
    rw [if_neg (by simpa using htext), String.ofList_toList]

theorem readName_eq_ok_iff {keyword name : String} {args : List Char} :
    readName keyword args = .ok name ↔
      ∃ quote, (quote = '\'' ∨ quote = '"') ∧ args = quote :: (name.toList ++ [quote]) ∧ name ≠ "" := by
  have hinner (inner : List Char) : (unquoted? '\'' args).or (unquoted? '"' args) = some inner ↔
      ∃ quote, (quote = '\'' ∨ quote = '"') ∧ args = quote :: (inner ++ [quote]) := by
    rw [Option.or_eq_some_iff, unquoted?_eq_some_iff, unquoted?_eq_some_iff]
    constructor
    · rintro (hargs | ⟨-, hargs⟩)
      · exact ⟨_, .inl rfl, hargs⟩
      · exact ⟨_, .inr rfl, hargs⟩
    · rintro ⟨quote, rfl | rfl, hargs⟩
      · exact .inl hargs
      · refine .inr ⟨?_, hargs⟩
        rw [hargs, unquoted?_concat, if_neg (by simp)]
  unfold readName
  constructor
  · intro h
    split at h
    · next c cs hquoted =>
      cases h
      obtain ⟨quote, hquote, hargs⟩ := (hinner _).mp hquoted
      exact ⟨quote, hquote, by rw [hargs, String.toList_ofList], by simp⟩
    · cases h
  · rintro ⟨quote, hquote, hargs, hname⟩
    rw [(hinner _).mpr ⟨quote, hquote, hargs⟩]
    obtain ⟨c, cs, hcs⟩ := List.exists_cons_of_ne_nil (l := name.toList) (by simpa using hname)
    rw [hcs, ← String.ofList_toList (s := name), hcs]

theorem withoutArguments_eq_ok_iff {keyword : String} {args : List Char} {d e : Directive} :
    withoutArguments keyword args d = .ok e ↔ args = [] ∧ d = e := by
  unfold withoutArguments
  split <;> simp_all

theorem elseCondition?_eq_some_iff {args condition : List Char} :
    elseCondition? args = some condition ↔
      ∃ rest, args = "if ".toList ++ rest ∧ Text.trim rest = condition := by
  unfold elseCondition?
  rw [Option.map_eq_some_iff]
  constructor
  · rintro ⟨rest, hrest, htrim⟩
    exact ⟨rest.val, Text.exactly_eq_some hrest, htrim⟩
  · rintro ⟨rest, hargs, htrim⟩
    obtain ⟨r, hr, rfl⟩ := Text.exactly_of_eq hargs
    exact ⟨r, hr, htrim⟩

theorem readDirective_spelled {body : List Char} {d : Directive} (h : readDirective body = .ok d) :
    d.Spelled body := by
  unfold readDirective at h
  cases hsplit : splitKeyword body with
  | mk keyword argument =>
    have hwords := splitKeyword_words hsplit
    rw [hsplit] at h
    dsimp only at h
    split at h
    case h_1 | h_2 | h_6 | h_8 =>
      obtain ⟨text, htext, rfl⟩ := map_eq_ok h
      exact .inl ⟨argument, hwords, readArgument_eq_ok_iff.mp htext⟩
    case h_3 =>
      obtain ⟨text, htext, rfl⟩ := map_eq_ok h
      obtain ⟨rfl, hne⟩ := readArgument_eq_ok_iff.mp htext
      exact .inr ⟨hne, .inl hwords⟩
    case h_4 =>
      split at h
      · next condition hcondition =>
        obtain ⟨text, htext, rfl⟩ := map_eq_ok h
        obtain ⟨rfl, hne⟩ := readArgument_eq_ok_iff.mp htext
        obtain ⟨rest, rfl, htrim⟩ := elseCondition?_eq_some_iff.mp hcondition
        exact .inr ⟨hne, .inr ⟨rest, hwords, htrim⟩⟩
      · obtain ⟨hnil, rfl⟩ := withoutArguments_eq_ok_iff.mp h
        exact .inl ⟨argument, hwords, hnil⟩
    case h_5 | h_7 | h_9 | h_12 =>
      obtain ⟨hnil, rfl⟩ := withoutArguments_eq_ok_iff.mp h
      exact .inl ⟨argument, hwords, hnil⟩
    case h_10 =>
      split at h
      · next hlabel =>
        cases h
        exact .inl ⟨argument, hwords, String.toList_ofList.symm, hlabel⟩
      · cases h
    case h_11 =>
      cases h
      exact .inl ⟨argument, hwords, trivial⟩
    case h_13 | h_14 =>
      obtain ⟨name, hname, rfl⟩ := map_eq_ok h
      exact .inl ⟨argument, hwords, readName_eq_ok_iff.mp hname⟩
    case h_15 => cases h
    case h_16 => cases h

theorem Directive.Spelled.readDirective {body : List Char} {d : Directive} (h : d.Spelled body) :
    readDirective body = .ok d := by
  unfold Markup.readDirective
  rcases h with ⟨argument, hwords, htakes⟩ | hvariant
  · rw [splitKeyword_of_words d.keyword_word hwords]
    cases d with
    | openIf text | elseIf text => exact congrArg (Except.map _) (readArgument_eq_ok_iff.mpr htakes)
    | openLoop kind header =>
      cases kind <;> exact congrArg (Except.map _) (readArgument_eq_ok_iff.mpr htakes)
    | openElse =>
      obtain rfl : argument = [] := htakes
      rfl
    | endIf | parent => exact withoutArguments_eq_ok_iff.mpr ⟨htakes, rfl⟩
    | endLoop kind => cases kind <;> exact withoutArguments_eq_ok_iff.mpr ⟨htakes, rfl⟩
    | openBlock name =>
      obtain ⟨rfl, hlabel⟩ := htakes
      exact (if_pos hlabel).trans (by rw [String.ofList_toList])
    | endBlock => rfl
    | extending name | including name => exact congrArg (Except.map _) (readName_eq_ok_iff.mpr htakes)
  · cases d with
    | elseIf condition =>
      obtain ⟨hne, hwords | ⟨rest, hwords, htrim⟩⟩ := hvariant
      · rw [splitKeyword_of_words (by decide) hwords]
        exact congrArg (Except.map _) (readArgument_eq_ok_iff.mpr ⟨rfl, hne⟩)
      · rw [splitKeyword_of_words (by decide) hwords]
        dsimp only
        rw [elseCondition?_eq_some_iff.mpr ⟨rest, rfl, htrim⟩]
        exact congrArg (Except.map _) (readArgument_eq_ok_iff.mpr ⟨rfl, hne⟩)
    | _ => exact hvariant.elim

-- Whether the body of an echo spells an expression with filters: between single bars outside quotes
-- stand the expression and the filters, with any blanks around them, and none of them is empty.
def EchoSpelled (body : List Char) (expr : String) (filters : List String) : Prop :=
  ∃ piece pieces, Splits .plain body piece pieces ∧
    (piece :: pieces).map Text.trim = (expr :: filters).map String.toList ∧ "" ∉ expr :: filters

theorem nil_mem_map_toList {names : List String} : [] ∈ names.map String.toList ↔ "" ∈ names := by
  simp

theorem any_isEmpty_iff {parts : List (List Char)} : parts.any List.isEmpty = true ↔ [] ∈ parts := by
  simp

theorem readEcho_spelled {body : List Char} {node : Node} (hquoted : Quoted body)
    (h : readEcho body = .ok node) :
    ∃ expr filters, node = .echo expr filters true ∧ EchoSpelled body expr filters := by
  obtain ⟨piece, pieces, hs, hsplits⟩ := splitPlain_splits hquoted
  unfold readEcho at h
  rw [splitBars_eq, Mode.ofQuote, hs] at h
  split at h
  · cases h
  · cases h
  · next expr filters hexpr hparts =>
    split at h
    · cases h
    · next hfilters =>
      cases h
      have hnames : (piece :: pieces).map Text.trim =
          (String.ofList expr :: filters.map String.ofList).map String.toList := by
        rw [hparts]
        simp [Function.comp_def]
      refine ⟨_, _, rfl, piece, pieces, hsplits, hnames, ?_⟩
      rw [← nil_mem_map_toList, ← hnames, hparts, List.mem_cons, not_or, ← any_isEmpty_iff]
      exact ⟨fun hnil => hexpr hnil.symm, hfilters⟩

theorem EchoSpelled.readEcho {body : List Char} {expr : String} {filters : List String}
    (h : EchoSpelled body expr filters) : readEcho body = .ok (.echo expr filters true) := by
  obtain ⟨piece, pieces, hsplits, hparts, hne⟩ := h
  rw [← nil_mem_map_toList, ← hparts] at hne
  have hpieces : ∀ other ∈ pieces, other ≠ [] := by
    rintro _ hmem rfl
    exact hne (List.mem_map.mpr ⟨[], List.mem_cons_of_mem _ hmem, rfl⟩)
  rw [hparts, List.map_cons, List.mem_cons, not_or, ← any_isEmpty_iff] at hne
  unfold Markup.readEcho
  rw [splitBars_eq, Mode.ofQuote, hsplits.splitPlain hpieces, hparts, List.map_cons]
  split
  · next hnil => cases hnil
  · next hnil => exact absurd (List.cons.inj hnil).1.symm hne.1
  · next hcons =>
    obtain ⟨rfl, rfl⟩ := List.cons.inj hcons
    rw [if_neg hne.2]
    simp [Function.comp_def]

end TemplateEngine.Markup
