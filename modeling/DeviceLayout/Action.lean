import DeviceLayout.Error

/-!
# Actions

An action runs on a state. It ends with an answer or with an error, leaves a state behind
either way, and writes log lines on the way: an action that fails keeps what it did before it
failed. An `Action σ α` maps states to values of `Outcome σ α`, so what a failed action left
behind is an ordinary value that later actions start from.

A relation between states that is reflexive and transitive and that every part of an action
keeps is kept by the whole (`Action.Keeps`).
-/

namespace DeviceLayout

/-! ## Log lines -/

/-- How loud a log line is. -/
inductive LogLevel where
  | trace
  | debug
  | warn
  deriving DecidableEq, Repr

/-- The spelling of a level. -/
def LogLevel.name : LogLevel → String
  | trace => "TRACE"
  | debug => "DEBUG"
  | warn => "WARN"

/-- What actions tell about their progress. -/
inductive Event where
  /-- A class descriptor was created. -/
  | newClass (id : ClassId) (name : String)
  /-- A class's fields were classified: the sizes of its four buckets. -/
  | classified (name : String) (instanceRefs instanceValues staticRefs staticValues : Nat)
  /-- A class was laid out. -/
  | laidOut (name : String) (base size : UInt32) (fields : Nat) (staticExtent : UInt32)
  /-- An array type was recorded. -/
  | arrayType (type : HostType)
  /-- A method was expanded: how many calls, fields and array types it has. -/
  | expanded (m : MethodRef) (calls fields arrays : Nat)
  /-- A walk ended: how much it found. -/
  | reached (methods fields arrays classes : Nat)
  /-- A class's size was asked for before it was laid out. -/
  | noLayout (name : String)
  /-- A class's size was asked for and could not be computed. -/
  | noSize (id : ClassId) (cause : LayoutError)
  deriving DecidableEq, Repr

/-- The level an event is logged at. -/
def Event.level : Event → LogLevel
  | newClass .. | classified .. | laidOut .. | reached .. => .debug
  | arrayType _ | expanded .. => .trace
  | noLayout _ | noSize .. => .warn

/-- The text an event is logged with. -/
def Event.text : Event → String
  | newClass id name => s!"new class descriptor {id.text} for {name}"
  | classified name ir iv sr sv =>
    s!"classified {name}: {ir} instance ref, {iv} instance value, " ++
      s!"{sr} static ref, {sv} static value"
  | laidOut name base size fields extent =>
    s!"layout {name}: base {base}, size {size}, {fields} fields, static block {extent}"
  | arrayType type => s!"array type {type.hostName}"
  | expanded m calls fields arrays =>
    s!"walk {m.text}: {calls} calls, {fields} fields, {arrays} array types"
  | reached methods fields arrays classes =>
    s!"reachability: {methods} methods, {fields} fields, {arrays} array types, {classes} classes"
  | noLayout name => s!"no layout computed for {name}, reporting size 0"
  | noSize id cause => s!"size of {id.text} unavailable, reporting 0: {cause.message}"

/-! ## Outcomes and actions -/

/-- What an action leaves behind: its answer or error, the state, and the log lines it wrote,
oldest first. -/
structure Outcome (σ α : Type) where
  result : Except LayoutError α
  state : σ
  log : List Event := []

/-- A computation on a state that may fail and keeps what it did before it failed. -/
structure Action (σ α : Type) where
  /-- What the action makes of a state. -/
  run : σ → Outcome σ α

variable {σ τ α β : Type}

namespace Outcome

/-- The same outcome with log lines in front. -/
def after (log : List Event) (o : Outcome σ α) : Outcome σ α :=
  { o with log := log ++ o.log }

/-- Change the answer, if there is one. -/
def map (f : α → β) (o : Outcome σ α) : Outcome σ β :=
  ⟨o.result.map f, o.state, o.log⟩

/-- Continue with the answer, or stop at the error. -/
def andThen (o : Outcome σ α) (f : α → Action σ β) : Outcome σ β :=
  match o.result with
  | .ok a => ((f a).run o.state).after o.log
  | .error e => ⟨.error e, o.state, o.log⟩

theorem result_after (log : List Event) (o : Outcome σ α) : (o.after log).result = o.result :=
  rfl

end Outcome

namespace Action

/-- Answer without touching the state. -/
protected def pure (a : α) : Action σ α :=
  ⟨fun s => ⟨.ok a, s, []⟩⟩

/-- Run one action after another, on the state the first one leaves behind. -/
protected def bind (x : Action σ α) (f : α → Action σ β) : Action σ β :=
  ⟨fun s => (x.run s).andThen f⟩

instance : Monad (Action σ) where
  pure := Action.pure
  bind := Action.bind

/-- Stop with an error. -/
def fail (e : LayoutError) : Action σ α :=
  ⟨fun s => ⟨.error e, s, []⟩⟩

/-- The present state. -/
def get : Action σ σ :=
  ⟨fun s => ⟨.ok s, s, []⟩⟩

/-- Change the state. -/
def modify (f : σ → σ) : Action σ Unit :=
  ⟨fun s => ⟨.ok (), f s, []⟩⟩

/-- Write log lines. -/
def tellAll (events : List Event) : Action σ Unit :=
  ⟨fun s => ⟨.ok (), s, events⟩⟩

/-- Write a log line. -/
def tell (e : Event) : Action σ Unit :=
  tellAll [e]

/-- The value, or the error in its place. -/
def ofExcept : Except LayoutError α → Action σ α
  | .ok a => Action.pure a
  | .error e => fail e

/-- Answer an error instead of failing with it. -/
def attempt (x : Action σ α) : Action σ (Except LayoutError α) :=
  ⟨fun s =>
    let o := x.run s
    ⟨.ok o.result, o.state, o.log⟩⟩

/-- Run an action on a part of a larger state. -/
def onPart (view : σ → τ) (update : σ → τ → σ) (x : Action τ α) : Action σ α :=
  ⟨fun s =>
    let o := x.run (view s)
    ⟨o.result, update s o.state, o.log⟩⟩

/-! ## Equations -/

theorem run_pure (a : α) (s : σ) : (Pure.pure a : Action σ α).run s = ⟨.ok a, s, []⟩ := rfl

theorem run_attempt (x : Action σ α) (s : σ) :
    (attempt x).run s = ⟨.ok (x.run s).result, (x.run s).state, (x.run s).log⟩ := rfl

theorem run_bind (x : Action σ α) (f : α → Action σ β) (s : σ) :
    (x >>= f).run s = (x.run s).andThen f := rfl

/-- Looking at the state first is giving the state to what comes behind. -/
theorem run_get_bind (f : σ → Action σ α) (s : σ) : (get >>= f).run s = (f s).run s := rfl

/-- Behind a success, the rest runs from the state that was left, and writes behind the log. -/
theorem run_bind_of_ok {x : Action σ α} {f : α → Action σ β} {s s' : σ} {a : α}
    {log : List Event} (h : x.run s = ⟨.ok a, s', log⟩) :
    (x >>= f).run s = ((f a).run s').after log := by
  rw [run_bind, h]
  rfl

/-- Behind an error, nothing runs. -/
theorem run_bind_of_error {x : Action σ α} {f : α → Action σ β} {s s' : σ} {e : LayoutError}
    {log : List Event} (h : x.run s = ⟨.error e, s', log⟩) :
    (x >>= f).run s = ⟨.error e, s', log⟩ := by
  rw [run_bind, h]
  rfl

/-- A sequence succeeds if both parts do, the second one from where the first one ends. -/
theorem result_bind_eq_ok {x : Action σ α} {f : α → Action σ β} {s : σ} {b : β} :
    ((x >>= f).run s).result = .ok b ↔
      ∃ a, (x.run s).result = .ok a ∧ ((f a).run (x.run s).state).result = .ok b := by
  rw [run_bind, Outcome.andThen]
  split
  · next a h => simp [h, Outcome.result_after]
  · next e h => simp [h]

theorem state_bind_of_ok {x : Action σ α} {f : α → Action σ β} {s : σ} {a : α}
    (h : (x.run s).result = .ok a) :
    ((x >>= f).run s).state = ((f a).run (x.run s).state).state := by
  rw [run_bind, Outcome.andThen]
  split
  · next a' h' =>
    cases h.symm.trans h'
    rfl
  · next e h' => cases h.symm.trans h'

/-! ## What an action keeps -/

/-- Whatever the outcome, the state before and the state after are related by `R`. -/
def Keeps (R : σ → σ → Prop) (x : Action σ α) : Prop :=
  ∀ s, R s (x.run s).state

namespace Keeps

variable {R : σ → σ → Prop}

/-- What changes no state keeps every reflexive relation. -/
theorem of_state_eq [Std.Refl R] {x : Action σ α} (h : ∀ s, (x.run s).state = s) : Keeps R x :=
  fun s => (h s).symm ▸ Std.Refl.refl s

protected theorem pure [Std.Refl R] (a : α) : Keeps R (Pure.pure a : Action σ α) :=
  of_state_eq fun _ => rfl

protected theorem fail [Std.Refl R] (e : LayoutError) : Keeps R (fail e : Action σ α) :=
  of_state_eq fun _ => rfl

protected theorem get [Std.Refl R] : Keeps R (get : Action σ σ) :=
  of_state_eq fun _ => rfl

protected theorem tellAll [Std.Refl R] (events : List Event) :
    Keeps R (tellAll events : Action σ Unit) :=
  of_state_eq fun _ => rfl

protected theorem tell [Std.Refl R] (e : Event) : Keeps R (tell e : Action σ Unit) :=
  of_state_eq fun _ => rfl

protected theorem modify {f : σ → σ} (h : ∀ s, R s (f s)) : Keeps R (modify f) :=
  fun s => h s

/-- A sequence keeps a transitive relation if its parts do. An error of the first part ends in a
state the first part is responsible for. -/
protected theorem bind [Trans R R R] {x : Action σ α} {f : α → Action σ β} (hx : Keeps R x)
    (hf : ∀ a, Keeps R (f a)) : Keeps R (x >>= f) := by
  intro s
  have h := hx s
  rw [run_bind, Outcome.andThen]
  split
  · exact Trans.trans h (hf _ _)
  · exact h

/-- An action that first looks at the state may use what it saw. -/
theorem get_bind {f : σ → Action σ α} (h : ∀ s, R s ((f s).run s).state) :
    Keeps R (get >>= f) :=
  fun s => h s

/-- An action on a part keeps what it keeps of the part. -/
protected theorem onPart {view : σ → τ} {update : σ → τ → σ} {x : Action τ α}
    (h : ∀ s, R s (update s (x.run (view s)).state)) : Keeps R (onPart view update x) :=
  fun s => h s

end Keeps

/-- If the action ends with an answer, the state before and the state after are related by
`R`. -/
def KeepsIfOk (R : σ → σ → Prop) (x : Action σ α) : Prop :=
  ∀ s a, (x.run s).result = .ok a → R s (x.run s).state

namespace KeepsIfOk

variable {R : σ → σ → Prop}

theorem of_keeps {x : Action σ α} (h : Keeps R x) : KeepsIfOk R x :=
  fun s _ _ => h s

/-- If a sequence succeeds, both of its parts did. -/
protected theorem bind [Trans R R R] {x : Action σ α} {f : α → Action σ β}
    (hx : KeepsIfOk R x) (hf : ∀ a, KeepsIfOk R (f a)) : KeepsIfOk R (x >>= f) := by
  intro s b h
  obtain ⟨a, ha, hb⟩ := result_bind_eq_ok.mp h
  rw [state_bind_of_ok ha]
  exact Trans.trans (hx s a ha) (hf a _ b hb)

end KeepsIfOk

end Action

end DeviceLayout
