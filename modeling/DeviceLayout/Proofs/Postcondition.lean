import DeviceLayout.Action

/-!
# What an action ensures

`x.Ensures s Q` says that the result of `x` and the state it leaves behind, started on `s`,
satisfy `Q`. The result is an answer or an error, so `Q` speaks about failed actions too.

One rule for each way actions are put together (`Ensures.bind`, `Ensures.onPart`, …) makes a
statement about a whole action out of statements about its parts. Unlike `Action.Keeps`, a
rest of an action may rely on the answer of the part before it. `x.Answers s Q` is the same for an
answer, and leaves errors aside.

An invariant may survive success only, or failures too. `x.Maintains B I` covers both : where
`I` holds before, it holds after, if `x` succeeds or if `B` does. `x.Confines I E` says that `I`
survives in any case and that, where it holds, `x` fails with errors of `E` only.
-/

namespace DeviceLayout

variable {σ τ α β : Type}

/-- A changed answer, with more log lines, is the change of an answer. -/
theorem Outcome.result_map_after_eq_ok {o : Outcome σ α} {f : α → β} {log : List Event} {b : β} :
    ((o.map f).after log).result = .ok b ↔ ∃ a, o.result = .ok a ∧ f a = b := by
  cases h : o.result <;> simp [result_after, map, h, Except.map]

/-- Changing the answer and writing more log lines makes no difference to whether there is an
answer. -/
theorem Outcome.exists_ok_map_after {o : Outcome σ α} {f : α → β} {log : List Event} :
    (∃ b, ((o.map f).after log).result = .ok b) ↔ ∃ a, o.result = .ok a := by
  simp only [result_map_after_eq_ok]
  exact ⟨fun ⟨_, a, h, _⟩ => ⟨a, h⟩, fun ⟨a, h⟩ => ⟨f a, a, h, rfl⟩⟩

/-- … and none to an error. -/
theorem Outcome.result_map_after_eq_error {o : Outcome σ α} {f : α → β} {log : List Event}
    {e : LayoutError} : ((o.map f).after log).result = .error e ↔ o.result = .error e := by
  cases h : o.result <;> simp [result_after, map, h, Except.map]

namespace Action

/-- The result of the action, run on `s`, and the state it leaves behind satisfy `Q`. -/
def Ensures (x : Action σ α) (s : σ) (Q : Except LayoutError α → σ → Prop) : Prop :=
  Q (x.run s).result (x.run s).state

namespace Ensures

variable {s : σ} {Q Q' : Except LayoutError α → σ → Prop}

/-- Ensure less. -/
protected theorem mono {x : Action σ α} (h : x.Ensures s Q) (hQ : ∀ r s', Q r s' → Q' r s') :
    x.Ensures s Q' :=
  hQ _ _ h

protected theorem pure {a : α} (h : Q (.ok a) s) : (Pure.pure a : Action σ α).Ensures s Q := h

protected theorem fail {e : LayoutError} (h : Q (.error e) s) : (fail e).Ensures s Q := h

/-- The rest runs on the answer and the state of the first part; an error of the first part is
the error of the whole. -/
protected theorem bind {x : Action σ α} {f : α → Action σ β} {P : Except LayoutError β → σ → Prop}
    (hx : x.Ensures s Q) (hok : ∀ a s', Q (.ok a) s' → (f a).Ensures s' P)
    (herr : ∀ e s', Q (.error e) s' → P (.error e) s') : (x >>= f).Ensures s P := by
  unfold Ensures at hx ⊢
  rw [run_bind, Outcome.andThen]
  split
  · next a h => exact hok a _ (h ▸ hx)
  · next e h => exact herr e _ (h ▸ hx)

/-- The rest runs on what a first part leaves that always succeeds. -/
theorem bind_isOk {x : Action σ α} {f : α → Action σ β} {I : σ → Prop}
    {P : Except LayoutError β → σ → Prop}
    (hx : x.Ensures s fun r s' => (∃ a, r = .ok a) ∧ I s')
    (hf : ∀ a s', I s' → (f a).Ensures s' P) : (x >>= f).Ensures s P :=
  Ensures.bind hx (fun a s' h => hf a s' h.2) fun _ _ h => nomatch h.1.choose_spec

/-- A first part that is known to succeed leaves it to the rest. -/
theorem bind_of_ok {x : Action σ α} {f : α → Action σ β} {s' : σ} {a : α} {log : List Event}
    {P : Except LayoutError β → σ → Prop} (hx : x.run s = ⟨.ok a, s', log⟩)
    (hf : (f a).Ensures s' P) : (x >>= f).Ensures s P := by
  unfold Ensures
  rw [run_bind_of_ok hx]
  exact hf

/-- A first part that is known to fail decides. -/
theorem bind_of_error {x : Action σ α} {f : α → Action σ β} {s' : σ} {e : LayoutError}
    {log : List Event} {P : Except LayoutError β → σ → Prop}
    (hx : x.run s = ⟨.error e, s', log⟩) (h : P (.error e) s') : (x >>= f).Ensures s P := by
  unfold Ensures
  rw [run_bind_of_error hx]
  exact h

protected theorem map {x : Action σ α} {f : α → β} {P : Except LayoutError β → σ → Prop}
    (hx : x.Ensures s fun r s' => P (r.map f) s') : (f <$> x).Ensures s P :=
  Ensures.bind hx (fun _ _ h => h) fun _ _ h => h

/-- Looking at the state first, an action may use what it saw. -/
protected theorem get_bind {f : σ → Action σ α} (h : (f s).Ensures s Q) :
    (get >>= f).Ensures s Q := h

/-- What comes behind a change runs from the changed state. -/
protected theorem modify_bind {g : σ → σ} {f : Unit → Action σ α} (h : (f ()).Ensures (g s) Q) :
    (modify g >>= f).Ensures s Q := h

/-- Log lines change nothing for what comes behind. -/
protected theorem tellAll_bind {events : List Event} {f : Unit → Action σ α}
    (h : (f ()).Ensures s Q) : (tellAll events >>= f).Ensures s Q := h

protected theorem tell_bind {e : Event} {f : Unit → Action σ α} (h : (f ()).Ensures s Q) :
    (tell e >>= f).Ensures s Q := h

/-- An action on a part ensures of the whole what it ensures of the part put back. -/
protected theorem onPart {view : σ → τ} {update : σ → τ → σ} {x : Action τ α}
    (h : x.Ensures (view s) fun r t => Q r (update s t)) : (onPart view update x).Ensures s Q := h

/-- Two things ensured are ensured together. -/
protected theorem and {x : Action σ α} (h : x.Ensures s Q) (h' : x.Ensures s Q') :
    x.Ensures s fun r s' => Q r s' ∧ Q' r s' := ⟨h, h'⟩

end Ensures

/-! ## Answers -/

/-- If the action, run on `s`, succeeds, its answer and the state it leaves behind satisfy `Q`. -/
def Answers (x : Action σ α) (s : σ) (Q : α → σ → Prop) : Prop :=
  ∀ a, (x.run s).result = .ok a → Q a (x.run s).state

/-- What is ensured of every outcome is answered where there is an answer. -/
theorem Ensures.answers {x : Action σ α} {s : σ} {Q : Except LayoutError α → σ → Prop}
    (h : x.Ensures s Q) : x.Answers s fun a s' => Q (.ok a) s' := by
  intro a ha
  rw [Ensures, ha] at h
  exact h

namespace Answers

variable {s : σ} {Q Q' : α → σ → Prop}

/-- Answer less. -/
protected theorem mono {x : Action σ α} (h : x.Answers s Q) (hQ : ∀ a s', Q a s' → Q' a s') :
    x.Answers s Q' :=
  fun a ha => hQ a _ (h a ha)

protected theorem pure {a : α} (h : Q a s) : (Pure.pure a : Action σ α).Answers s Q :=
  fun _ ha => Except.ok.inj ha ▸ h

/-- Nothing is asked of an error. -/
protected theorem fail (e : LayoutError) : (fail e : Action σ α).Answers s Q :=
  fun _ ha => nomatch ha

/-- The rest runs on the answer and the state of the first part, if there is an answer. -/
protected theorem bind {x : Action σ α} {f : α → Action σ β} {P : β → σ → Prop}
    (hx : x.Answers s Q) (hf : ∀ a s', Q a s' → (f a).Answers s' P) : (x >>= f).Answers s P := by
  intro b hb
  obtain ⟨a, ha, hb⟩ := result_bind_eq_ok.mp hb
  rw [state_bind_of_ok ha]
  exact hf a _ (hx a ha) b hb

protected theorem get_bind {f : σ → Action σ α} (h : (f s).Answers s Q) :
    (get >>= f).Answers s Q := h

protected theorem modify_bind {g : σ → σ} {f : Unit → Action σ α} (h : (f ()).Answers (g s) Q) :
    (modify g >>= f).Answers s Q :=
  .bind (Q := fun _ s' => s' = g s) (fun _ _ => rfl) fun _ _ hs => hs ▸ h

protected theorem tell_bind {e : Event} {f : Unit → Action σ α} (h : (f ()).Answers s Q) :
    (tell e >>= f).Answers s Q :=
  .bind (Q := fun _ s' => s' = s) (fun _ _ => rfl) fun _ _ hs => hs ▸ h

/-- An action on a part answers of the whole what it answers of the part put back. -/
protected theorem onPart {view : σ → τ} {update : σ → τ → σ} {x : Action τ α}
    (h : x.Answers (view s) fun a t => Q a (update s t)) : (onPart view update x).Answers s Q := h

/-- Two things answered are answered together. -/
protected theorem and {x : Action σ α} (h : x.Answers s Q) (h' : x.Answers s Q') :
    x.Answers s fun a s' => Q a s' ∧ Q' a s' :=
  fun a ha => ⟨h a ha, h' a ha⟩

end Answers

/-! ## Invariants -/

/-- `I` is kept by the action if it succeeds; if `B` holds, it is kept in any case. -/
def Maintains (B : Prop) (I : σ → Prop) (x : Action σ α) : Prop :=
  ∀ s, I s → x.Ensures s fun r s' => (∃ a, r = .ok a) ∨ B → I s'

namespace Maintains

variable {B : Prop} {I : σ → Prop}

protected theorem pure (a : α) : Maintains B I (Pure.pure a : Action σ α) :=
  fun _ hs _ => hs

protected theorem fail (e : LayoutError) : Maintains B I (fail e : Action σ α) :=
  fun _ hs _ => hs

protected theorem get : Maintains B I (get : Action σ σ) :=
  fun _ hs _ => hs

protected theorem tell (e : Event) : Maintains B I (tell e : Action σ Unit) :=
  fun _ hs _ => hs

/-- A change maintains what it keeps. -/
protected theorem modify {f : σ → σ} (h : ∀ s, I s → I (f s)) : Maintains B I (modify f) :=
  fun s hs _ => h s hs

/-- The first part hands the invariant on to the rest if it succeeds. If it fails, the whole fails
with it, and the invariant is asked for only where `B` holds. -/
protected theorem bind {x : Action σ α} {f : α → Action σ β} (hx : Maintains B I x)
    (hf : ∀ a, Maintains B I (f a)) : Maintains B I (x >>= f) := by
  intro s hs
  refine (hx s hs).bind (fun a s' hs' => hf a s' (hs' (Or.inl ⟨a, rfl⟩))) fun e s' hs' h => ?_
  rcases h with ⟨a, ha⟩ | hB
  · cases ha
  · exact hs' (Or.inr hB)

protected theorem map {x : Action σ α} (hx : Maintains B I x) (f : α → β) :
    Maintains B I (f <$> x) :=
  .bind hx fun a => .pure (f a)

/-- An invariant of the part is maintained in the whole if the two can be told from each other. -/
protected theorem onPart {view : σ → τ} {update : σ → τ → σ} {J : τ → Prop} {x : Action τ α}
    (hx : Maintains B J x) (hview : ∀ s, I s → J (view s))
    (hupdate : ∀ s t, I s → J t → I (update s t)) : Maintains B I (onPart view update x) :=
  fun s hs h => hupdate s _ hs (hx (view s) (hview s hs) h)

end Maintains

/-! ## Errors -/

/-- `I` holds at the end, and an error is one of `E`. -/
def Ends (I : σ → Prop) (E : LayoutError → Prop) (r : Except LayoutError α) (s : σ) : Prop :=
  I s ∧ ∀ e, r = .error e → E e

/-- `I` is kept by the action whatever the outcome, and where it holds, an error is one of `E`. -/
def Confines (I : σ → Prop) (E : LayoutError → Prop) (x : Action σ α) : Prop :=
  ∀ s, I s → x.Ensures s (Ends I E)

section

variable {I : σ → Prop} {E : LayoutError → Prop} {s : σ}

theorem Ends.ok {a : α} (h : I s) : Ends I E (.ok a) s :=
  ⟨h, fun _ he => nomatch he⟩

/-- An error may end an action if it is one of those that are admitted. -/
theorem Ends.error {e : LayoutError} (h : I s) (he : E e) :
    Ends I E (.error e : Except LayoutError α) s :=
  ⟨h, fun _ h' => Except.error.inj h' ▸ he⟩

/-- The rest may rely on what the first part ensures besides. -/
theorem Ends.bind {x : Action σ α} {f : α → Action σ β} {Q : Except LayoutError α → σ → Prop}
    (hx : x.Ensures s (Ends I E)) (hQ : x.Ensures s Q)
    (hf : ∀ a s', I s' → Q (.ok a) s' → (f a).Ensures s' (Ends I E)) :
    (x >>= f).Ensures s (Ends I E) :=
  (hx.and hQ).bind (fun a s' ⟨⟨hs', _⟩, ha⟩ => hf a s' hs' ha)
    fun e _ ⟨⟨hs', he⟩, _⟩ => .error hs' (he e rfl)

end

namespace Confines

variable {I : σ → Prop} {E E' : LayoutError → Prop}

/-- Exclude fewer errors. -/
protected theorem mono {x : Action σ α} (h : Confines I E x) (hE : ∀ e, E e → E' e) :
    Confines I E' x :=
  fun s hs => (h s hs).mono fun _ _ h' => ⟨h'.1, fun e he => hE e (h'.2 e he)⟩

protected theorem pure (a : α) : Confines I E (Pure.pure a : Action σ α) :=
  fun _ hs => .ok hs

protected theorem fail {e : LayoutError} (he : E e) : Confines I E (fail e : Action σ α) :=
  fun _ hs => .error hs he

protected theorem get : Confines I E (get : Action σ σ) :=
  fun _ hs => .ok hs

protected theorem tellAll (events : List Event) :
    Confines I E (tellAll events : Action σ Unit) :=
  fun _ hs => .ok hs

protected theorem tell (e : Event) : Confines I E (tell e : Action σ Unit) :=
  .tellAll [e]

protected theorem modify {f : σ → σ} (h : ∀ s, I s → I (f s)) : Confines I E (modify f) :=
  fun s hs => .ok (h s hs)

/-- A sequence has the errors of its parts. -/
protected theorem bind {x : Action σ α} {f : α → Action σ β} (hx : Confines I E x)
    (hf : ∀ a, Confines I E (f a)) : Confines I E (x >>= f) :=
  fun s hs => Ends.bind (Q := fun _ _ => True) (hx s hs) trivial fun a s' hs' _ => hf a s' hs'

protected theorem map {x : Action σ α} (hx : Confines I E x) (f : α → β) :
    Confines I E (f <$> x) :=
  .bind hx fun a => .pure (f a)

/-- An action that first looks at the state may use what it saw. -/
theorem get_bind {f : σ → Action σ α} (h : ∀ s, I s → (f s).Ensures s (Ends I E)) :
    Confines I E (get >>= f) :=
  fun s hs => .get_bind (h s hs)

/-- A part has no errors but its own, and may be put back where this keeps the invariant. -/
protected theorem onPart {view : σ → τ} {update : σ → τ → σ} {J : τ → Prop} {x : Action τ α}
    (hx : Confines J E x) (hview : ∀ s, I s → J (view s))
    (hupdate : ∀ s t, I s → J t → I (update s t)) : Confines I E (onPart view update x) :=
  fun s hs => .onPart ((hx (view s) (hview s hs)).mono fun _ t h => ⟨hupdate s t hs h.1, h.2⟩)

end Confines

/-- Changing the answer makes no difference to an error. -/
theorem result_map_eq_error {x : Action σ α} {f : α → β} {s : σ} {e : LayoutError} :
    ((f <$> x).run s).result = .error e ↔ (x.run s).result = .error e := by
  rw [show f <$> x = x >>= fun a => Pure.pure (f a) from rfl, run_bind]
  cases h : (x.run s).result <;> simp [Outcome.andThen, h, Outcome.result_after, run_pure]

protected theorem Keeps.map {R : σ → σ → Prop} {x : Action σ α} (h : x.Keeps R) (f : α → β) :
    (f <$> x).Keeps R :=
  fun s => Ensures.map (P := fun _ s' => R s s') (h s)

end Action

end DeviceLayout
