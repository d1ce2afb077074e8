import TemplateEngine.Proofs.Expr.Paths
import TemplateEngine.Proofs.Render.Refinement

-- What the variables of a loop stand for where its body begins. The round comes last into the frame
-- and the value before it, so a variable is hidden if one of them has its name.
namespace TemplateEngine

namespace Bindings

theorem get?_cons (name other : String) (v : Value) (rest : Bindings) :
    get? ((name, v) :: rest) other = if other = name then some v else rest.get? other := by
  unfold get?
  by_cases hother : other = name
  · rw [hother, List.lookup_cons_self, if_pos rfl]
  · rw [List.lookup_cons, beq_false_of_ne hother, if_neg hother]

theorem get?_insert (fields : Bindings) (name other : String) (v : Value) :
    (insert name v fields).get? other = if other = name then some v else fields.get? other := by
  induction fields with
  | nil => exact get?_cons name other v []
  | cons field rest ih =>
    obtain ⟨field, old⟩ := field
    unfold insert
    by_cases hsame : name = field
    · rw [if_pos hsame, get?_cons, get?_cons, hsame]
      split <;> rfl
    · rw [if_neg hsame]
      by_cases hless : name < field
      · rw [if_pos hless, get?_cons]
      · rw [if_neg hless, get?_cons, get?_cons, ih]
        by_cases hother : other = field
        · rw [if_pos hother, if_pos hother, if_neg (hother ▸ Ne.symm hsame)]
        · rw [if_neg hother, if_neg hother]

-- Names in key order, each once.
def Ascending (fields : Bindings) : Prop := fields.Pairwise fun f g => f.1 < g.1

theorem mem_insert {fields : Bindings} {name : String} {v : Value} {f : String × Value}
    (h : f ∈ insert name v fields) : f.1 = name ∨ f ∈ fields := by
  induction fields with
  | nil =>
    rw [insert, List.mem_singleton] at h
    exact .inl (congrArg Prod.fst h)
  | cons field rest ih =>
    obtain ⟨field, old⟩ := field
    rw [insert] at h
    split at h
    · rcases List.mem_cons.mp h with rfl | h
      · exact .inl rfl
      · exact .inr (List.mem_cons_of_mem _ h)
    · split at h
      · rcases List.mem_cons.mp h with rfl | h
        · exact .inl rfl
        · exact .inr h
      · rcases List.mem_cons.mp h with rfl | h
        · exact .inr (List.mem_cons_self ..)
        · exact (ih h).imp_right (List.mem_cons_of_mem _)

theorem Ascending.insert {fields : Bindings} (h : fields.Ascending) (name : String) (v : Value) :
    (insert name v fields).Ascending := by
  induction fields with
  | nil => exact List.pairwise_singleton _ _
  | cons field rest ih =>
    obtain ⟨field, old⟩ := field
    obtain ⟨hfield, hrest⟩ := List.pairwise_cons.mp h
    unfold Bindings.insert
    by_cases hsame : name = field
    · subst hsame
      rw [if_pos rfl]
      exact List.pairwise_cons.mpr ⟨hfield, hrest⟩
    · rw [if_neg hsame]
      by_cases hless : name < field
      · rw [if_pos hless]
        refine List.pairwise_cons.mpr ⟨List.forall_mem_cons.mpr ⟨hless, fun g hg => ?_⟩, h⟩
        exact String.lt_trans hless (hfield g hg)
      · rw [if_neg hless]
        have hmore : field < name := Std.lt_of_le_of_ne (String.not_lt.mp hless) (Ne.symm hsame)
        refine List.pairwise_cons.mpr ⟨fun g hg => ?_, ih hrest⟩
        rcases mem_insert hg with hg | hg
        · rwa [hg]
        · exact hfield g hg

-- Whatever fields an object is made of, it lists them in key order.
theorem ofList_ascending (fields : List (String × Value)) : (ofList fields).Ascending := by
  unfold ofList
  refine List.foldlRecOn fields _ List.Pairwise.nil fun all hall field _ => ?_
  exact Ascending.insert hall field.1 field.2

end Bindings

namespace Render

section Names

variable {kind : LoopKind} {header : String} {parsed : LoopHeader}

theorem named_of_isName {cs : List Char} (h : Text.isName cs = true) : Expr.Named (String.ofList cs) := by
  cases cs with
  | nil => cases h
  | cons c cs =>
    rw [Text.isName, Bool.and_eq_true] at h
    refine ⟨fun hempty => ?_, ?_⟩
    · have hlist := congrArg String.toList hempty
      rw [String.toList_ofList] at hlist
      cases hlist
    · rw [String.toList_ofList, List.all_cons, Text.continuesName_of_startsName h.1, h.2]
      rfl

theorem loopVariable_spells {raw : List Char} {name : String} (h : loopVariable header raw = .ok name) :
    Expr.Spells name ('$' :: name.toList) := by
  have hcheck : ∀ (cs : List Char) (fault : Fault),
      (if Text.isName cs = true then .ok (String.ofList cs) else .error fault) = Except.ok name →
        Expr.Spells name ('$' :: name.toList) := by
    intro cs fault hname
    split at hname
    · next hvalid =>
      cases hname
      exact .sigil (named_of_isName hvalid)
    · cases hname
  exact hcheck _ _ h

-- The variables of a header can be asked for, at least with their sigils.
theorem LoopHeader.read_spells (h : LoopHeader.read kind header = .ok parsed) :
    Expr.Spells parsed.value ('$' :: parsed.value.toList) ∧
      ∀ name ∈ parsed.key, Expr.Spells name ('$' :: name.toList) := by
  unfold LoopHeader.read at h
  split at h
  · cases h
  · split at h
    · obtain ⟨key, hkey, h⟩ := bind_eq_ok h
      obtain ⟨value, hvalue, h⟩ := bind_eq_ok h
      obtain ⟨named, hnamed, h⟩ := bind_eq_ok h
      cases hnamed
      dsimp only at h
      split at h
      · cases h
      · cases h
        refine ⟨loopVariable_spells hvalue, ?_⟩
        rintro _ ⟨⟩
        exact loopVariable_spells hkey
    · obtain ⟨value, hvalue, h⟩ := bind_eq_ok h
      obtain ⟨named, hnamed, h⟩ := bind_eq_ok h
      cases hnamed
      dsimp only at h
      split at h
      · cases h
      · cases h
        exact ⟨loopVariable_spells hvalue, nofun⟩

end Names

-- A text has a value on a machine, and finding it changes neither the output nor the scope.
def Evaluates (rules : Rules) (m : Machine) (source : String) (v : Value) : Prop :=
  ∃ n, (evaluate rules source).run m = (.ok v, n) ∧ n.out = m.out ∧ n.frames = m.frames

section Evaluation

variable {rules : Rules} {m : Machine} {source : String} {v : Value}

theorem evaluate_run_ok (hm : Faithful m.known) (hv : valueOf rules m.frames source = .ok v) :
    ∃ n, (evaluate rules source).run m = (.ok v, n) ∧ n.out = m.out ∧ n.frames = m.frames ∧
      Faithful n.known := by
  have hends : Ends _ m _ ((evaluate rules source).run m) := gives_evaluate source m rfl hm
  rw [hv] at hends
  generalize (evaluate rules source).run m = last at hends
  cases hends with
  | @done _ _ n hn => exact ⟨n, rfl, hn.out.trans String.append_empty, hn.frames, hn.faithful⟩

theorem runAll_faithful {nodes : List Node} {result : Except Fault Unit} {n : Machine}
    (hm : Faithful m.known) (hrun : (runAll rules nodes).run m = (result, n)) : Faithful n.known := by
  have hends := runAll_writes rules m.frames nodes m rfl hm
  rw [hrun] at hends
  generalize (fun text => ((), text)) <$> textOfAll rules m.frames nodes = told at hends
  cases hends with
  | done hn => exact hn.faithful
  | stopped hn => exact hn.faithful

-- A name stands for what the innermost frame binds it to, whatever is bound further out.
theorem valueOf_of_get? {frame : Bindings} {outer : List Bindings} {name : String} {text : List Char}
    (hget : frame.get? name = some v) (htext : Expr.Spells name text) :
    valueOf rules (frame :: outer) (String.ofList text) = .ok v := by
  have hlookup : lookup (frame :: outer) name = some v := by
    rw [lookup, List.findSome?_cons, hget]
  rw [valueOf, htext.read]
  dsimp only
  rw [Expr.eval, hlookup]
  rfl

theorem evaluates_of_get? {frame : Bindings} {outer : List Bindings} {name : String} {text : List Char}
    (hm : Faithful m.known) (hframes : m.frames = frame :: outer) (hget : frame.get? name = some v)
    (htext : Expr.Spells name text) : Evaluates rules m (String.ofList text) v := by
  obtain ⟨n, hrun, hout, hn, -⟩ := evaluate_run_ok hm (hframes ▸ valueOf_of_get? hget htext)
  exact ⟨n, hrun, hout, hn⟩

end Evaluation

-- What the variables of a header stand for on a machine.
structure Shows (rules : Rules) (header : LoopHeader) (m : Machine) (index count : Nat) (key item : Value) :
    Prop where
  value : ∀ text, Expr.Spells header.value text → Evaluates rules m (String.ofList text)
    (if header.value = "loop" then roundInfo index count else item)
  key : ∀ name ∈ header.key, ∀ text, Expr.Spells name text → Evaluates rules m (String.ofList text)
    (if name = "loop" then roundInfo index count else if name = header.value then item else key)

theorem shows_of_frames {rules : Rules} {header : LoopHeader} {m : Machine} {index count : Nat}
    {key item : Value} {outer : List Bindings} (hm : Faithful m.known)
    (hframes : m.frames = roundFrame header index count key item :: outer) :
    Shows rules header m index count key item where
  value := by
    intro text htext
    refine evaluates_of_get? hm hframes ?_ htext
    unfold roundFrame
    rw [Bindings.get?_insert, Bindings.get?_insert, if_pos rfl]
    split <;> rfl
  key := by
    intro name hname text htext
    refine evaluates_of_get? hm hframes ?_ htext
    unfold roundFrame
    rw [Option.mem_def.mp hname, Bindings.get?_insert, Bindings.get?_insert, Bindings.get?_insert, if_pos rfl]
    split
    · rfl
    · split <;> rfl

-- The machine on which the body of a round begins.
def Machine.atRound (m : Machine) (header : LoopHeader) (count : Nat) (round : (Value × Value) × Nat) :
    Machine :=
  { m with frames := roundFrame header round.2 count round.1.1 round.1.2 :: m.frames.tail }

-- The rounds of a loop one after the other: the machines on which its body begins, and how the last
-- one ends. A round that fails ends the loop.
inductive Rounds (rules : Rules) (header : LoopHeader) (count : Nat) (body : List Node) :
    List ((Value × Value) × Nat) → Machine → List Machine → Except Fault Unit × Machine → Prop where
  | done (m : Machine) : Rounds rules header count body [] m [] (.ok (), m)
  | failed {m n : Machine} {round : (Value × Value) × Nat} {rounds : List ((Value × Value) × Nat)}
      {fault : Fault} (hrun : (runAll rules body).run (m.atRound header count round) = (.error fault, n)) :
      Rounds rules header count body (round :: rounds) m [m.atRound header count round] (.error fault, n)
  | next {m n : Machine} {round : (Value × Value) × Nat} {rounds : List ((Value × Value) × Nat)}
      {starts : List Machine} {last : Except Fault Unit × Machine}
      (hrun : (runAll rules body).run (m.atRound header count round) = (.ok (), n))
      (hrest : Rounds rules header count body rounds n starts last) :
      Rounds rules header count body (round :: rounds) m (m.atRound header count round :: starts) last

section Looping

variable {rules : Rules} {header : LoopHeader} {count : Nat} {body : List Node} {m : Machine}

def playRound (rules : Rules) (header : LoopHeader) (count : Nat) (body : List Node)
    (round : (Value × Value) × Nat) : Run Unit := do
  setFrame (roundFrame header round.2 count round.1.1 round.1.2)
  runAll rules body

theorem rounds_of_forM (rounds : List ((Value × Value) × Nat)) (m : Machine) :
    ∃ starts, Rounds rules header count body rounds m starts
      ((rounds.forM (playRound rules header count body)).run m) := by
  induction rounds generalizing m with
  | nil => exact ⟨[], .done m⟩
  | cons round rounds ih =>
    have hround : (playRound rules header count body round).run m =
        (runAll rules body).run (m.atRound header count round) := rfl
    change ∃ starts, Rounds rules header count body (round :: rounds) m starts
      ((playRound rules header count body round >>= fun _ =>
        rounds.forM (playRound rules header count body)).run m)
    rw [run_bind, hround]
    cases hrun : (runAll rules body).run (m.atRound header count round) with
    | mk result n =>
      cases result with
      | error fault => exact ⟨_, .failed hrun⟩
      | ok u =>
        obtain ⟨starts, hrest⟩ := ih n
        exact ⟨_, .next hrun hrest⟩

-- A loop that goes through begins as many rounds as there are, and one that stops begins at least one.
theorem Rounds.length {rounds : List ((Value × Value) × Nat)} {starts : List Machine}
    {last : Except Fault Unit × Machine} (h : Rounds rules header count body rounds m starts last) :
    (rounds ≠ [] → starts ≠ []) ∧ (last.1 = .ok () → starts.length = rounds.length) := by
  induction h with
  | done => exact ⟨fun h => absurd rfl h, fun _ => rfl⟩
  | failed => exact ⟨fun _ => List.cons_ne_nil _ _, nofun⟩
  | next _ _ ih => exact ⟨fun _ => List.cons_ne_nil _ _, fun h => congrArg (· + 1) (ih.2 h)⟩

-- Each body begins under the frame of its own round, which the rounds before leave no trace in.
theorem Rounds.frames {rounds : List ((Value × Value) × Nat)} {starts : List Machine}
    {last : Except Fault Unit × Machine} (h : Rounds rules header count body rounds m starts last)
    (hm : Faithful m.known) {i : Nat} {start : Machine} (hstart : starts[i]? = some start) :
    ∃ round, rounds[i]? = some round ∧ Faithful start.known ∧
      start.frames = roundFrame header round.2 count round.1.1 round.1.2 :: m.frames.tail := by
  induction h generalizing i with
  | done m => cases hstart
  | @failed m n round rounds fault hrun =>
    cases i with
    | zero =>
      cases hstart
      exact ⟨round, rfl, hm, rfl⟩
    | succ i => cases hstart
  | @next m n round rounds starts last hrun hrest ih =>
    cases i with
    | zero =>
      cases hstart
      exact ⟨round, rfl, hm, rfl⟩
    | succ i =>
      have hframes : n.frames = (m.atRound header count round).frames := by
        have hbalanced := runAll_balanced rules body (m.atRound header count round)
        rwa [hrun] at hbalanced
      have hknown := runAll_faithful (m := m.atRound header count round) hm hrun
      obtain ⟨other, hother, hfaithful, hstart⟩ := ih hknown hstart
      rw [hframes] at hstart
      exact ⟨other, hother, hfaithful, hstart⟩

theorem loop_run (body : List Node) {kind : LoopKind} {source : String} {v : Value}
    {items : List (Value × Value)}
    (hheader : LoopHeader.read kind source = .ok header) (hm : Faithful m.known)
    (hv : valueOf rules m.frames header.iterable = .ok v) (hitems : itemsOf header.iterable v = .ok items) :
    ∃ first starts result last,
      (run rules (.loop kind source body)).run m = (result, { last with frames := last.frames.tail }) ∧
      Rounds rules header items.length body items.zipIdx first starts (result, last) ∧
      first.out = m.out ∧ first.frames.tail = m.frames ∧ Faithful first.known := by
  obtain ⟨n, hrun, hout, hframes, hknown⟩ := evaluate_run_ok hm hv
  obtain ⟨starts, hrounds⟩ : ∃ starts, Rounds rules header items.length body items.zipIdx _ starts _ :=
    rounds_of_forM items.zipIdx { n with frames := [] :: n.frames }
  refine ⟨_, starts, _, _, ?_, hrounds, hout, hframes, hknown⟩
  rw [run, hheader]
  change (evaluate rules header.iterable >>= fun v => _).run m = _
  rw [run_bind, hrun]
  dsimp only
  rw [hitems]
  rfl

end Looping

-- The rounds that a value asks for: the items of an array under their indices, or the fields of an
-- object under their names.
inductive Iterates : Value → List (Value × Value) → Prop where
  | array (items : List Value) : Iterates (.array items) (items.mapIdx fun i item => (.natural i, item))
  | object (fields : Bindings) : Iterates (.object fields) (fields.map fun f => (.string f.1, f.2))

-- Every body of a loop begins with the header's variables as they are for its round, whatever is bound
-- further out, but for variables whose name is taken: `loop` is always the round, and a key of the
-- same name as the value is the value. A parsed expression is kept under its text, so what is read in the
-- body is what the text says there, whatever was kept before the round.
theorem loop_shows_variables (rules : Rules) (kind : LoopKind) (header : String) (parsed : LoopHeader)
    (body : List Node) (m : Machine) (v : Value) (items : List (Value × Value))
    (hheader : LoopHeader.read kind header = .ok parsed) (hm : Faithful m.known)
    (hv : valueOf rules m.frames parsed.iterable = .ok v) (hitems : Iterates v items) :
    (Expr.Spells parsed.value ('$' :: parsed.value.toList) ∧
      ∀ name ∈ parsed.key, Expr.Spells name ('$' :: name.toList)) ∧
    (∀ fields, v = .object fields → Bindings.Ascending fields →
      items.Pairwise fun a b => ∃ k l, a.1 = .string k ∧ b.1 = .string l ∧ k < l) ∧
    ∃ first starts result last,
      (run rules (.loop kind header body)).run m = (result, { last with frames := last.frames.tail }) ∧
      Rounds rules parsed items.length body items.zipIdx first starts (result, last) ∧
      first.out = m.out ∧ first.frames.tail = m.frames ∧
      (items ≠ [] → starts ≠ []) ∧ (result = .ok () → starts.length = items.length) ∧
      ∀ i start, starts[i]? = some start → ∃ key item, items[i]? = some (key, item) ∧
        start.frames.tail = m.frames ∧ Faithful start.known ∧
        Shows rules parsed start i items.length key item := by
  have hiterable : itemsOf parsed.iterable v = .ok items := by
    cases hitems <;> rfl
  refine ⟨LoopHeader.read_spells hheader, ?_, ?_⟩
  · rintro fields rfl hascending
    cases hitems
    refine List.pairwise_map.mpr (hascending.imp fun {f g} hless => ?_)
    exact ⟨f.1, g.1, rfl, rfl, hless⟩
  · obtain ⟨first, starts, result, last, hrun, hrounds, hout, hframes, hknown⟩ :=
      loop_run body hheader hm hv hiterable
    obtain ⟨hbegins, hcount⟩ := hrounds.length
    rw [List.length_zipIdx] at hcount
    refine ⟨first, starts, result, last, hrun, hrounds, hout, hframes, fun hitems => ?_, hcount, ?_⟩
    · exact hbegins (by rwa [ne_eq, List.zipIdx_eq_nil_iff])
    intro i start hstart
    obtain ⟨⟨⟨key, item⟩, index⟩, hround, hfaithful, hstart⟩ := hrounds.frames hknown hstart
    rw [List.getElem?_zipIdx, Nat.zero_add] at hround
    obtain ⟨pair, hpair, he⟩ := Option.map_eq_some_iff.mp hround
    cases he
    exact ⟨key, item, hpair, by rw [hstart, ← hframes]; rfl, hfaithful, shows_of_frames hfaithful hstart⟩

private def hidingScope : Bindings :=
  [("k", .string "outer"), ("loop", .string "outer"), ("xs", .array [.string "a"])]

-- The key of the round is there in spite of the binding outside, and the value is hidden by the round.
theorem loop_shows_variables_hiding :
    LoopHeader.read .foreach "xs as k => loop" = .ok ⟨"xs", some "k", "loop"⟩ ∧ Faithful [] ∧
      valueOf ⟨.basic, true⟩ [hidingScope] "xs" = .ok (.array [.string "a"]) ∧
      ∃ start : Machine, start.frames.tail = [hidingScope] ∧
        Evaluates ⟨.basic, true⟩ start "$k" (.natural 0) ∧
        Evaluates ⟨.basic, true⟩ start "loop" (roundInfo 0 1) := by
  have hheader : LoopHeader.read .foreach "xs as k => loop" = .ok ⟨"xs", some "k", "loop"⟩ := by
    decide +kernel
  have hxs : Expr.Spells "xs" ['x', 's'] := .word (by decide) (by decide)
  have hvalue : valueOf ⟨.basic, true⟩ [hidingScope] "xs" = .ok (.array [.string "a"]) :=
    valueOf_of_get? rfl hxs
  obtain ⟨⟨-, hkey⟩, -, first, starts, result, last, -, -, -, -, hbegins, -, hshows⟩ :=
    loop_shows_variables ⟨.basic, true⟩ .foreach "xs as k => loop" ⟨"xs", some "k", "loop"⟩
      [.echo "loop" [] false] ⟨"", [hidingScope], []⟩ _ _ hheader faithful_nil hvalue (.array _)
  refine ⟨hheader, faithful_nil, hvalue, ?_⟩
  obtain ⟨start, others, rfl⟩ := List.exists_cons_of_ne_nil (hbegins (by decide))
  obtain ⟨key, item, hitem, hframes, -, hvariables⟩ := hshows 0 start rfl
  cases hitem
  exact ⟨start, hframes, hvariables.key "k" rfl _ (hkey "k" rfl),
    hvariables.value "loop".toList (.word (by decide) (by decide))⟩

end Render

end TemplateEngine
