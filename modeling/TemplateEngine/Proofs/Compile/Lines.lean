import TemplateEngine.Proofs.Compile.Bases
import TemplateEngine.Proofs.Compile.Cycles
import TemplateEngine.Proofs.Markup.Stripping

-- The line of a syntax error is that of the construct at fault in what is left of a template when its
-- scripts are gone. In the template as written it is short by the newlines of the scripts before it.
namespace TemplateEngine.Compile

open Markup (Concerns ShownAt Strips exists_kept newlines_writtenOf removedOf shownOf stripScripts writtenOf)

-- What is wrong with a text that has no scripts, and what stands before the construct it is wrong with.
inductive Offends (source : List Char) : Markup.Fault → List Char → Prop
  | read {fault : Markup.Fault} {front : List Char} (h : Concerns source fault front) :
      Offends source fault front
  | base {fault : Markup.Fault} {front : List Char} {before after : List Markup.Piece} {name : String}
      (hbase : ShownAt source front before (.directive (.extending name)) after)
      (hplace : Misplaced none before fault) : Offends source fault front

theorem Offends.brace {source front : List Char} {fault : Markup.Fault} (h : Offends source fault front) :
    (∃ back, source = front ++ '{' :: back) ∨
      fault = .unclosedLiteral ∧ ∃ lead back, front = lead ++ ['}'] ∧ source = front ++ back := by
  cases h with
  | read h => exact h.brace
  | base hbase => exact .inl hbase.brace

theorem plan_malformed {c : Compiler} {text : String} {line : Nat} {message : String}
    (h : plan c text = .error (.malformed line message)) :
    ∃ fault front, Offends (stripScripts text.toList) fault front ∧ message = fault.message ∧
      line = 1 + Text.newlines front := by
  unfold plan readSource at h
  dsimp only at h
  cases hread : Markup.read (stripScripts text.toList) with
  | error e =>
    rw [hread] at h
    cases h
    obtain ⟨front, hconcerns, hline⟩ := Markup.concerns_of_read hread
    exact ⟨e.fault, front, .read hconcerns, rfl, hline⟩
  | ok nodes =>
    simp only [hread] at h
    split at h
    · next fault hsettle =>
      cases h
      obtain ⟨_, _, _, hfault⟩ := settleAll_eq_error hsettle
      cases hfault
    · next settled hsettle =>
      rw [settleAll_base? hsettle] at h
      split at h
      · next e hbase =>
        cases h
        obtain ⟨before, ⟨name, after, hnodes⟩, hplace⟩ := base?_eq_error hbase
        obtain ⟨front, hshown, hline⟩ := Markup.linedBy_of_read hread _ _ _ hnodes _ rfl
        exact ⟨e.fault, front, .base hshown hplace, rfl, hline⟩
      · cases h

-- A text that is at fault is one that the template reaches.
theorem link_malformed {c : Compiler} {h : Host} (stack : List Path) (a : Template) {t : Trail}
    {p : Option Path} {line : Nat} {message : String}
    (hrun : (link c h stack a.text a.path).run t = .error ⟨p, .malformed line message⟩) :
    ∃ b, Reaches c h a b ∧ b.path = p ∧ plan c b.text = .error (.malformed line message) := by
  induction stack, a using unvisited_induction (h := h) generalizing t with
  | step stack a ih =>
    cases failsBy_of_link hrun with
    | text hplan => exact ⟨a, .refl, rfl, hplan⟩
    | @entered name l text _ _ hfollows hany htext hlink =>
      obtain ⟨b, hb, hpath, hfault⟩ := ih l text hany htext hlink
      exact ⟨b, .head ⟨name, l, hfollows, htext, rfl⟩ hb, hpath, hfault⟩

-- What stands before a construct is left of some of the stretches: those before its brace.
theorem Offends.exists_before {parts : List Markup.Stretch} {fault : Markup.Fault} {front : List Char}
    (h : Offends (shownOf parts) fault front) :
    ∃ before after, parts = before ++ after ∧ shownOf before = front ∧
      ((∃ back, after = .kept '{' :: back) ∨
        fault = .unclosedLiteral ∧ ∃ lead, before = lead ++ [.kept '}']) := by
  rcases h.brace with ⟨back, hsplit⟩ | ⟨hfault, lead, back, rfl, hsplit⟩
  · obtain ⟨before, after, rfl, hbefore, -⟩ := exists_kept hsplit
    exact ⟨before, _, rfl, hbefore, .inl ⟨after, rfl⟩⟩
  · rw [List.append_assoc] at hsplit
    obtain ⟨before, after, rfl, rfl, -⟩ := exists_kept hsplit
    exact ⟨before ++ [.kept '}'], after, by simp, by simp [Markup.Stretch.shown], .inr ⟨hfault, before, rfl⟩⟩

-- A syntax error is reported for a construct of a template that is reached, on a line that is short by
-- the newlines of the scripts before the construct.
theorem compile_malformed {c : Compiler} {h : Host} {source : String} {path p : Option Path} {line : Nat}
    {message : String} (hr : compile c h source path = .error ⟨p, .malformed line message⟩) :
    ∃ b before after fault, Reaches c h ⟨source, path.map h.absolute⟩ b ∧ b.path = p ∧
      Strips b.text.toList (before ++ after) ∧ stripScripts b.text.toList = shownOf (before ++ after) ∧
      Offends (stripScripts b.text.toList) fault (shownOf before) ∧ message = fault.message ∧
      ((∃ back, after = .kept '{' :: back) ∨
        fault = .unclosedLiteral ∧ ∃ lead, before = lead ++ [.kept '}']) ∧
      line + Text.newlines (removedOf before) = 1 + Text.newlines (writtenOf before) := by
  unfold compile at hr
  dsimp only at hr
  split at hr
  · next failure hrun =>
    cases hr
    obtain ⟨b, hb, hpath, hplan⟩ := link_malformed _ ⟨source, path.map h.absolute⟩ hrun
    obtain ⟨fault, front, hoffends, hmessage, hline⟩ := plan_malformed hplan
    obtain ⟨parts, hparts, hshown⟩ := Markup.exists_strips b.text.toList
    rw [← hshown] at hoffends
    obtain ⟨before, after, rfl, rfl, hbrace⟩ := hoffends.exists_before
    refine ⟨b, before, after, fault, hb, hpath, hparts, hshown.symm, hshown ▸ hoffends, hmessage, hbrace, ?_⟩
    rw [newlines_writtenOf, hline]
    omega
  · cases hr

-- An echo that is not closed stands on the third line, behind a script of two.
private def scriptedPage : String := "<?php\n?>\n\x7b\x7b x"

theorem compile_malformed_shelf :
    compile shelfCompiler (shelf []) scriptedPage none =
        .error ⟨none, .malformed 2 "unclosed '\x7b\x7b' delimiter"⟩ ∧
      ∃ b before after fault, Reaches shelfCompiler (shelf []) ⟨scriptedPage, none⟩ b ∧ b.path = none ∧
        Strips b.text.toList (before ++ after) ∧ stripScripts b.text.toList = shownOf (before ++ after) ∧
        Offends (stripScripts b.text.toList) fault (shownOf before) ∧
        "unclosed '\x7b\x7b' delimiter" = fault.message ∧
        ((∃ back, after = .kept '{' :: back) ∨
          fault = .unclosedLiteral ∧ ∃ lead, before = lead ++ [.kept '}']) ∧
        2 + Text.newlines (removedOf before) = 1 + Text.newlines (writtenOf before) := by
  have hfails : (compile shelfCompiler (shelf []) scriptedPage none).map (fun _ => ()) =
      .error ⟨none, .malformed 2 "unclosed '\x7b\x7b' delimiter"⟩ := by decide +kernel
  have hr := map_eq_error hfails
  exact ⟨hr, compile_malformed hr⟩

end TemplateEngine.Compile
