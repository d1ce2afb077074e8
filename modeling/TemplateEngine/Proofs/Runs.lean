-- Taking computations apart: those that may fail, and those that change a state all the same.
namespace TemplateEngine

variable {ε ε' σ α β : Type}

theorem bind_eq_ok {x : Except ε α} {f : α → Except ε β} {b : β}
    (h : (x >>= f) = .ok b) : ∃ a, x = .ok a ∧ f a = .ok b := by
  cases x with
  | error e => cases h
  | ok a => exact ⟨a, rfl, h⟩

theorem bind_eq_error {x : Except ε α} {f : α → Except ε β} {e : ε}
    (h : (x >>= f) = .error e) : x = .error e ∨ ∃ a, x = .ok a ∧ f a = .error e := by
  cases x with
  | error e' =>
    cases h
    exact .inl rfl
  | ok a => exact .inr ⟨a, rfl, h⟩

theorem map_eq_ok {x : Except ε α} {f : α → β} {b : β} (h : x.map f = .ok b) :
    ∃ a, x = .ok a ∧ f a = b := by
  cases x with
  | error e => cases h
  | ok a => exact ⟨a, rfl, Except.ok.inj h⟩

theorem map_eq_error {x : Except ε α} {f : α → β} {e : ε} (h : x.map f = .error e) : x = .error e := by
  cases x with
  | error e' => exact congrArg Except.error (Except.error.inj h)
  | ok a => cases h

theorem mapError_eq_error {x : Except ε α} {f : ε → ε'} {e' : ε'} (h : x.mapError f = .error e') :
    ∃ e, x = .error e ∧ f e = e' := by
  cases x with
  | error e => exact ⟨e, rfl, Except.error.inj h⟩
  | ok a => cases h

theorem mapError_eq_ok {x : Except ε α} {f : ε → ε'} {a : α} : x.mapError f = .ok a ↔ x = .ok a := by
  cases x with
  | error e => exact ⟨nofun, nofun⟩
  | ok b =>
    constructor
    · exact fun h => congrArg Except.ok (Except.ok.inj h)
    · exact fun h => congrArg Except.ok (Except.ok.inj h)

-- A run that fails does so at one of its steps.
theorem foldlM_eq_error {f : β → α → Except ε β} {xs : List α} {b : β} {e : ε}
    (h : xs.foldlM f b = .error e) :
    ∃ before x after next, xs = before ++ x :: after ∧ before.foldlM f b = .ok next ∧ f next x = .error e := by
  induction xs generalizing b with
  | nil => cases h
  | cons x xs ih =>
    rcases bind_eq_error h with hx | ⟨next, hx, hrest⟩
    · exact ⟨[], x, xs, b, rfl, rfl, hx⟩
    · obtain ⟨before, y, after, last, rfl, hbefore, hy⟩ := ih hrest
      refine ⟨x :: before, y, after, last, rfl, ?_, hy⟩
      rw [List.foldlM_cons, hx]
      exact hbefore

theorem mem_of_mapM_eq_ok {f : α → Except ε β} {xs : List α} {ys : List β}
    (h : xs.mapM f = .ok ys) : ∀ y ∈ ys, ∃ x ∈ xs, f x = .ok y := by
  induction xs generalizing ys with
  | nil =>
    cases h
    simp
  | cons x xs ih =>
    rw [List.mapM_cons] at h
    obtain ⟨y, hy, h⟩ := bind_eq_ok h
    obtain ⟨others, hothers, h⟩ := bind_eq_ok h
    cases h
    simp only [List.forall_mem_cons]
    refine ⟨⟨x, by simp, hy⟩, fun z hz => ?_⟩
    obtain ⟨x', hx', hf⟩ := ih hothers z hz
    exact ⟨x', by simp [hx'], hf⟩

theorem run_bind (x : ExceptT ε (StateM σ) α) (f : α → ExceptT ε (StateM σ) β) (s : σ) :
    (x >>= f).run s =
      match x.run s with
      | (.ok a, s') => (f a).run s'
      | (.error e, s') => (.error e, s') := by
  change (ExceptT.bind x f) s = _
  unfold ExceptT.bind
  change (ExceptT.bindCont f (x s).1) (x s).2 = _
  unfold ExceptT.run
  cases hx : x s with
  | mk result s' => cases result <;> rfl

theorem run_bind_ok {x : ExceptT ε (StateM σ) α} {f : α → ExceptT ε (StateM σ) β} {s s' : σ} {b : β}
    (h : (x >>= f).run s = (.ok b, s')) : ∃ a t, x.run s = (.ok a, t) ∧ (f a).run t = (.ok b, s') := by
  rw [run_bind] at h
  cases hx : x.run s with
  | mk result t =>
    rw [hx] at h
    cases result with
    | error e => cases h
    | ok a => exact ⟨a, t, rfl, h⟩

theorem run_get_bind (f : σ → ExceptT ε (StateM σ) β) (s : σ) : (get >>= f).run s = (f s).run s := rfl

theorem run_adapt (g : ε → ε') (x : ExceptT ε (StateM σ) α) (s : σ) :
    (ExceptT.adapt g x).run s =
      match x.run s with
      | (.ok a, s') => (.ok a, s')
      | (.error e, s') => (.error (g e), s') := by
  change ((x s).1.mapError g, (x s).2) = _
  unfold ExceptT.run
  cases hx : x s with
  | mk result s' => cases result <;> rfl

-- Whether the states before and after an action are always related, also when it fails.
def Keeps (R : σ → σ → Prop) (x : ExceptT ε (StateM σ) α) : Prop := ∀ s, R s (x.run s).2

theorem Keeps.bind {R : σ → σ → Prop} (htrans : ∀ s t u, R s t → R t u → R s u)
    {x : ExceptT ε (StateM σ) α} {f : α → ExceptT ε (StateM σ) β} (hx : Keeps R x)
    (hf : ∀ a, Keeps R (f a)) : Keeps R (x >>= f) := by
  intro s
  have hs := hx s
  rw [run_bind]
  cases hrun : x.run s with
  | mk result s' =>
    rw [hrun] at hs
    cases result with
    | error e => exact hs
    | ok a => exact htrans s s' _ hs (hf a s')

theorem Keeps.adapt {R : σ → σ → Prop} (g : ε → ε') {x : ExceptT ε (StateM σ) α} (hx : Keeps R x) :
    Keeps R (ExceptT.adapt g x) := by
  intro s
  have hs := hx s
  rw [run_adapt]
  cases hrun : x.run s with
  | mk result s' =>
    rw [hrun] at hs
    cases result <;> exact hs

theorem Keeps.forM {R : σ → σ → Prop} (hrefl : ∀ s, R s s) (htrans : ∀ s t u, R s t → R t u → R s u)
    {f : α → ExceptT ε (StateM σ) Unit} {xs : List α} (hf : ∀ x ∈ xs, Keeps R (f x)) :
    Keeps R (xs.forM f) := by
  induction xs with
  | nil => exact hrefl
  | cons x xs ih =>
    exact Keeps.bind htrans (hf x (by simp)) fun _ => ih fun y hy => hf y (by simp [hy])

-- Whether an action gives a result in a state, and leaves a state that has a property.
def Yields (P : σ → Prop) (x : ExceptT ε (StateM σ) α) (result : Except ε α) (s : σ) : Prop :=
  ∃ s', x.run s = (result, s') ∧ P s'

section Yields

variable {P Q : σ → Prop} {x : ExceptT ε (StateM σ) α} {f : α → ExceptT ε (StateM σ) β} {s : σ}

theorem Yields.pure (hs : P s) (a : α) : Yields P (Pure.pure a : ExceptT ε (StateM σ) α) (.ok a) s :=
  ⟨s, rfl, hs⟩

theorem Yields.bind {a : α} {result : Except ε β} (hx : Yields P x (.ok a) s)
    (hf : ∀ t, P t → Yields Q (f a) result t) : Yields Q (x >>= f) result s := by
  obtain ⟨t, hrun, ht⟩ := hx
  obtain ⟨u, hrun', hu⟩ := hf t ht
  refine ⟨u, ?_, hu⟩
  rw [run_bind, hrun]
  exact hrun'

theorem Yields.bind_error {e : ε} (hx : Yields P x (.error e) s) : Yields P (x >>= f) (.error e) s := by
  obtain ⟨t, hrun, ht⟩ := hx
  refine ⟨t, ?_, ht⟩
  rw [run_bind, hrun]

theorem Yields.get_bind {f : σ → ExceptT ε (StateM σ) β} {result : Except ε β} (hf : Yields P (f s) result s) :
    Yields P (get >>= f) result s := by
  obtain ⟨t, hrun, ht⟩ := hf
  exact ⟨t, (run_get_bind f s).trans hrun, ht⟩

end Yields

end TemplateEngine
