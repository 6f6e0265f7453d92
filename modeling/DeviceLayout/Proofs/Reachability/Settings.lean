import DeviceLayout.Proofs.Reachability.Walk

/-!
# Settings have no influence on discovery

The settings leave one mark on a catalog while it grows : a new class takes down the packing order
it will be packed in. Nothing in discovery reads it. So what a step of discovery does under other
settings is what it does here, with that mark exchanged (`Action.Carries`), and the walk follows
step by step (`Registry.walk_carries`) : same answer, same log lines, and the same registry but
for the packing order of its classes.
-/

open DeviceLayout.Action

namespace DeviceLayout

/-! ## Actions on images of a state -/

section

variable {σ τ α β : Type} {φ : σ → τ}

/-- The same outcome in the image of the state. -/
def Outcome.mapState (φ : σ → τ) (o : Outcome σ α) : Outcome τ α :=
  ⟨o.result, φ o.state, o.log⟩

namespace Action

/-- `x'` does on the image of a state what `x` does on the state. -/
def Carries (φ : σ → τ) (x : Action σ α) (x' : Action τ α) : Prop :=
  ∀ s, x'.run (φ s) = (x.run s).mapState φ

namespace Carries

protected theorem pure (a : α) : Carries φ (Pure.pure a) (Pure.pure a) :=
  fun _ => rfl

/-- Log lines are the same on both sides. -/
protected theorem tellAll (events : List Event) :
    Carries φ (tellAll events) (tellAll events) :=
  fun _ => rfl

protected theorem tell (e : Event) : Carries φ (tell e) (tell e) :=
  fun _ => rfl

/-- A change is carried over if the image of the changed state is the changed image. -/
protected theorem modify {f : σ → σ} {f' : τ → τ} (h : ∀ s, f' (φ s) = φ (f s)) :
    Carries φ (modify f) (modify f') := by
  intro s
  simp [Action.modify, Outcome.mapState, h]

/-- A sequence is carried over part by part. Both sides take the same way, since their answers and
errors agree. -/
protected theorem bind {x : Action σ α} {x' : Action τ α} {f : α → Action σ β}
    {f' : α → Action τ β} (hx : Carries φ x x') (hf : ∀ a, Carries φ (f a) (f' a)) :
    Carries φ (x >>= f) (x' >>= f') := by
  intro s
  rw [run_bind, run_bind, hx s]
  simp only [Outcome.andThen, Outcome.mapState]
  cases (x.run s).result with
  | ok a => simp only [hf a (x.run s).state, Outcome.mapState, Outcome.after]
  | error e => rfl

/-- Actions that first look at the state see the state and its image. -/
theorem get_bind {f : σ → Action σ α} {f' : τ → Action τ α}
    (h : ∀ s, (f' (φ s)).run (φ s) = ((f s).run s).mapState φ) :
    Carries φ (get >>= f) (get >>= f') :=
  fun s => h s

end Carries

end Action

end

/-! ## Another packing order -/

/-- The class, to be packed in another order. -/
def ClassDescriptor.withPacking (p : Packing) (d : ClassDescriptor) : ClassDescriptor :=
  { d with packing := p }

namespace Catalog

variable {S S' : Setting} {p : Packing} {c : Catalog} {id : ClassId} {name : String}

/-- The catalog with all classes to be packed in another order. -/
def withPacking (p : Packing) (c : Catalog) : Catalog :=
  { c with classes := c.classes.map (.withPacking p) }

/-- Ids lead to the same classes, to be packed in another order. -/
@[simp] theorem class?_withPacking :
    (c.withPacking p).class? id = (c.class? id).map (.withPacking p) :=
  List.getElem?_map

/-- Names lead to the same ids. -/
@[simp] theorem lookup_withPacking : (c.withPacking p).lookup name = c.lookup name := by
  rw [lookup, lookup, withPacking, List.find?_map, Option.map_map]
  rfl

theorem parent_withPacking :
    ((c.withPacking p).class? id).bind (·.parent) = (c.class? id).bind (·.parent) := by
  rw [class?_withPacking, Option.bind_map]
  rfl

/-- The packing order has no influence on what a class descends from. -/
@[simp] theorem lineage_withPacking : (c.withPacking p).lineage id = c.lineage id := by
  fun_induction lineage c id with
  | case1 id h => rw [lineage, parent_withPacking, h]
  | case2 id parent h hlt ih =>
    rw [lineage, parent_withPacking, h, ← ih]
    exact dif_pos hlt
  | case3 id parent h hlt =>
    rw [lineage, parent_withPacking, h]
    exact dif_neg hlt

/-- A field is found on the same class. -/
@[simp] theorem declaring?_withPacking {host : Host} {field : String} :
    (c.withPacking p).declaring? host id field = c.declaring? host id field := by
  rw [declaring?, declaring?, lineage_withPacking]
  refine congrArg (List.findSome? · _) (funext fun owner => ?_)
  rw [class?_withPacking]
  cases c.class? owner <;> rfl

/-! ## Discovery -/

/-- Requests to a descriptor are carried over from the class to its catalog. -/
theorem onClass_carries {α : Type} {x x' : Action ClassDescriptor α} (id : ClassId)
    (h : Carries (.withPacking p) x x') :
    Carries (withPacking p) (onClass id x) (onClass id x') := by
  refine .get_bind fun c => ?_
  rw [class?_withPacking]
  cases c.class? id with
  | none => rfl
  | some d =>
    simp only [Option.map_some, Action.onPart, h d, Outcome.mapState, withPacking, List.map_set]

theorem addMethod_carries (m : MethodRef) :
    Carries (.withPacking p) (ClassDescriptor.addMethod m) (ClassDescriptor.addMethod m) := by
  refine .get_bind fun d => ?_
  show (if d.hasMethod m then _ else _ : Action ClassDescriptor Bool).run _ = _
  split <;> rfl

/-- A field is refused, passed over or added for reasons that do not lie in the packing order. -/
theorem addField_carries (f : HostField) :
    Carries (.withPacking p) (ClassDescriptor.addField f) (ClassDescriptor.addField f) := by
  refine .get_bind fun d => ?_
  show (if d.hasField f.name then _ else
    if d.frozen then _ else _ : Action ClassDescriptor Bool).run _ = _
  split
  · rfl
  · split <;> rfl

/-- A new class takes down the packing order of the settings it is found under. Nothing else tells
the two sides apart. -/
theorem ensureClass_carries (packing p : Packing) (parent : Option ClassId) (name : String) :
    Carries (withPacking p) (ensureClass packing parent name) (ensureClass p parent name) := by
  refine .get_bind fun c => ?_
  rw [lookup_withPacking]
  cases c.lookup name with
  | some id => rfl
  | none =>
    have hlen : (c.withPacking p).classes.length = c.classes.length := List.length_map ..
    dsimp only
    rw [hlen]
    refine Carries.bind (.tell _) (fun _ => .bind (.modify fun c => ?_) fun _ => .pure _) c
    simp [withPacking, ClassDescriptor.withPacking]

/-- Along a chain, class by class. -/
theorem ensureChain_carries (packing p : Packing) (name : String) :
    ∀ (chain : List String) (parent : Option ClassId), Carries (withPacking p)
      (ensureChain packing name parent chain) (ensureChain p name parent chain)
  | [], parent => ensureClass_carries packing p parent name
  | ancestor :: rest, parent =>
    .bind (ensureClass_carries packing p parent ancestor) fun id =>
      ensureChain_carries packing p name rest (some id)

section

variable (hhost : S'.host = S.host)

include hhost

/-- A class is known, refused or brought in alike : the host is the same, and so are the names. -/
theorem classFor_carries (name : String) :
    Carries (withPacking S'.config.packing) (classFor S name) (classFor S' name) := by
  refine .get_bind fun c => ?_
  rw [lookup_withPacking, hhost]
  cases c.lookup name with
  | some id => rfl
  | none =>
    dsimp only
    split
    · rfl
    · cases S.host.ancestors name with
      | none => rfl
      | some ancestors => exact ensureChain_carries _ _ _ _ _ c

/-- The class that a type mentions is brought in alike. -/
theorem bringIn_carries (t : HostType) :
    Carries (withPacking S'.config.packing) (bringIn S t) (bringIn S' t) := by
  unfold bringIn
  cases t.referencedClass? with
  | none => exact .pure _
  | some name => exact .bind (classFor_carries hhost name) fun _ => .pure _

/-- The missing levels of an array type are the same ones, and so is the class behind them. -/
theorem recordArray_carries (t : HostType) :
    Carries (withPacking S'.config.packing) (recordArray S t) (recordArray S' t) := by
  refine .get_bind fun c => ?_
  have hmissing : (c.withPacking S'.config.packing).missingArrays t = c.missingArrays t := rfl
  rw [hmissing]
  dsimp only
  split
  · rfl
  · refine Carries.bind (.tellAll _) (fun _ => .bind (.modify ?_) fun _ => ?_) c
    · exact fun _ => rfl
    · exact .bind (bringIn_carries hhost t) fun _ => .pure _

theorem recordArrays_carries : ∀ ts : List HostType,
    Carries (withPacking S'.config.packing) (recordArrays S ts) (recordArrays S' ts)
  | [] => .pure _
  | t :: rest => .bind (recordArray_carries hhost t) fun _ => recordArrays_carries rest

theorem registerMethod_carries (m : MethodRef) :
    Carries (withPacking S'.config.packing) (registerMethod S m) (registerMethod S' m) :=
  .bind (classFor_carries hhost _) fun id => onClass_carries id (addMethod_carries m)

/-- A field access finds the same declaration, and brings in alike what its type mentions. -/
theorem registerField_carries (access : FieldRef) :
    Carries (withPacking S'.config.packing) (registerField S access) (registerField S' access) := by
  refine .bind (classFor_carries hhost _) fun through => .get_bind fun c => ?_
  rw [declaring?_withPacking, hhost]
  cases c.declaring? S.host through access.name with
  | none => rfl
  | some found =>
    obtain ⟨owner, declaration⟩ := found
    refine Carries.bind (onClass_carries owner (addField_carries declaration)) (fun added => ?_) c
    split
    · exact .pure _
    · exact .bind (bringIn_carries hhost _) fun _ =>
        .bind (recordArray_carries hhost _) fun _ => .pure _

theorem registerFields_carries : ∀ accesses : List FieldRef,
    Carries (withPacking S'.config.packing) (registerFields S accesses) (registerFields S' accesses)
  | [] => .pure _
  | access :: rest => .bind (registerField_carries hhost access) fun _ =>
      .bind (registerFields_carries rest) fun _ => .pure _

end

end Catalog

namespace Registry

variable {S S' : Setting} {p : Packing} {g : CallGraph}

/-- The registry with all classes to be packed in another order. -/
def withPacking (p : Packing) (r : Registry) : Registry :=
  { r with catalog := r.catalog.withPacking p }

/-! ## Walks -/

/-- What is carried over in the catalog is carried over in the registry. -/
theorem onCatalog_carries {α : Type} {x x' : Action Catalog α}
    (h : Carries (Catalog.withPacking p) x x') :
    Carries (withPacking p) (onCatalog x) (onCatalog x') := by
  intro r
  simp only [onCatalog, Action.onPart, withPacking, h r.catalog, Outcome.mapState]

section

variable (hhost : S'.host = S.host)

include hhost

theorem collect_carries (facts : MethodFacts) :
    Carries (Catalog.withPacking S'.config.packing) (collect S facts) (collect S' facts) :=
  .bind (Catalog.registerFields_carries hhost _) fun _ =>
    .bind (Catalog.recordArrays_carries hhost _) fun _ => .pure _

/-- A method is expanded alike under other settings : registered, marked, named in the log, and its
facts collected. -/
theorem expand_carries (m : MethodRef) (facts : MethodFacts) :
    Carries (withPacking S'.config.packing) (expand S m facts) (expand S' m facts) :=
  .bind (onCatalog_carries (Catalog.registerMethod_carries hhost m)) fun _ =>
    .bind (.modify fun _ => rfl) fun _ => .bind (.tell _) fun _ =>
      onCatalog_carries (collect_carries hhost facts)

/-- A queue is worked off alike under other settings. -/
theorem expandAll_carries (queue : List MethodRef) : Carries (withPacking S'.config.packing)
    (.mk (expandAll S g queue)) (.mk (expandAll S' g queue)) := by
  intro r
  show expandAll S' g queue (r.withPacking S'.config.packing) =
    (expandAll S g queue r).mapState (withPacking S'.config.packing)
  fun_induction expandAll S g queue r with
  | case1 r => rw [expandAll]; rfl
  | case2 r m rest hw ih =>
    have hw' : m ∈ (r.withPacking S'.config.packing).walked := hw
    rw [expandAll_of_walked hw', ih]
  | case3 r m rest hw hf =>
    have hw' : m ∉ (r.withPacking S'.config.packing).walked := hw
    rw [expandAll_of_unknown hw' hf]
    rfl
  | case4 r m rest hw facts hf e he =>
    have hw' : m ∉ (r.withPacking S'.config.packing).walked := hw
    have hrun := expand_carries hhost m facts r
    rw [expandAll_of_error hw' hf ((congrArg Outcome.result hrun).trans he), hrun]
    rfl
  | case5 r m rest hw facts hf n he o more ih =>
    have hw' : m ∉ (r.withPacking S'.config.packing).walked := hw
    have hrun := expand_carries hhost m facts r
    rw [expandAll_of_ok hw' hf ((congrArg Outcome.result hrun).trans he), hrun]
    exact congrArg (fun o' : Outcome Registry (Nat × Nat) =>
      (o'.map fun found => (found.1 + 1, found.2 + n)).after o.log) ih

/-- Under other settings a walk finds what it finds here. -/
theorem walk_carries (entries : List MethodRef) :
    Carries (withPacking S'.config.packing) (walk S g entries) (walk S' g entries) := by
  refine .get_bind fun before => ?_
  refine Carries.bind (expandAll_carries hhost entries) (fun found => .get_bind fun after => ?_)
    before
  have hlength (r : Registry) :
      (r.withPacking S'.config.packing).catalog.classes.length = r.catalog.classes.length :=
    List.length_map ..
  rw [hlength, hlength]
  rfl

end

end Registry

end DeviceLayout
