import DeviceLayout.Proofs.History

/-!
# What the log says about walks

A log line that a method was expanded is written where the method is marked, and nowhere else. So
whatever an action on a registry does, it adds to the marked methods exactly those that its log
names, in that order, whether it succeeds or fails (`Registry.Records`). Every request does
(`Request.serve_records`).

The log of a whole history therefore names the marked methods (`Registry.expansions_logAfter`), and
as no method is marked twice, none is expanded twice in the life of a registry, whatever call graphs
its walks went by.
-/

open DeviceLayout.Action

namespace DeviceLayout

/-! ## Lines about expansions -/

/-- The method that a log line says was expanded. -/
def Event.expands? : Event → Option MethodRef
  | expanded m .. => some m
  | _ => none

/-- The methods that a log says were expanded, in order. -/
def expansions (log : List Event) : List MethodRef :=
  log.filterMap (·.expands?)

/-- Expansions are read off the log line by line. -/
theorem expansions_append (log log' : List Event) :
    expansions (log ++ log') = expansions log ++ expansions log' :=
  List.filterMap_append ..

namespace Action

variable {σ τ α β : Type} {E : Event → Prop}

/-- Whatever the outcome, all log lines satisfy `E`. -/
def Writes (E : Event → Prop) (x : Action σ α) : Prop :=
  ∀ s, ∀ e ∈ (x.run s).log, E e

namespace Writes

protected theorem mono {E' : Event → Prop} {x : Action σ α} (h : Writes E x)
    (hE : ∀ e, E e → E' e) : Writes E' x :=
  fun s e he => hE e (h s e he)

protected theorem pure (a : α) : Writes E (Pure.pure a : Action σ α) :=
  fun _ _ he => nomatch he

protected theorem fail (e : LayoutError) : Writes E (fail e : Action σ α) :=
  fun _ _ he => nomatch he

protected theorem get : Writes E (get : Action σ σ) :=
  fun _ _ he => nomatch he

protected theorem modify (f : σ → σ) : Writes E (modify f) :=
  fun _ _ he => nomatch he

protected theorem tellAll {events : List Event} (h : ∀ e ∈ events, E e) :
    Writes E (tellAll events : Action σ Unit) :=
  fun _ => h

protected theorem tell {e : Event} (h : E e) : Writes E (tell e : Action σ Unit) :=
  .tellAll fun _ he => List.mem_singleton.mp he ▸ h

/-- A log is written by both parts, or by the first one alone if it fails. -/
protected theorem bind {x : Action σ α} {f : α → Action σ β} (hx : Writes E x)
    (hf : ∀ a, Writes E (f a)) : Writes E (x >>= f) := by
  intro s e he
  rw [run_bind, Outcome.andThen] at he
  split at he
  · rcases List.mem_append.mp he with he | he
    · exact hx s e he
    · exact hf _ _ e he
  · exact hx s e he

protected theorem map {x : Action σ α} (hx : Writes E x) (f : α → β) : Writes E (f <$> x) :=
  .bind hx fun a => .pure (f a)

/-- An action that first looks at the state may use what it saw. -/
theorem get_bind {f : σ → Action σ α} (h : ∀ s, ∀ e ∈ ((f s).run s).log, E e) :
    Writes E (get >>= f) :=
  h

/-- An action on a part of the state writes what it writes on its own. -/
protected theorem onPart {view : σ → τ} {update : σ → τ → σ} {x : Action τ α} (h : Writes E x) :
    Writes E (onPart view update x) :=
  fun s => h (view s)

end Writes

/-- No log line says that a method was expanded. -/
def Silent (x : Action σ α) : Prop :=
  Writes (fun e => e.expands? = none) x

/-- A silent action names no method in its log. -/
theorem Silent.expansions_eq {x : Action σ α} (h : Silent x) (s : σ) :
    expansions (x.run s).log = [] :=
  List.filterMap_eq_nil_iff.mpr (h s)

end Action

/-! ## Discovery is silent -/

/-- A field is added without a line. -/
theorem ClassDescriptor.addField_silent (f : HostField) : Silent (addField f) := by
  refine .get_bind fun d => ?_
  split
  · exact Writes.pure _ d
  · split
    · exact Writes.fail _ d
    · exact Writes.bind (.modify _) (fun _ => .pure _) d

theorem ClassDescriptor.addMethod_silent (m : MethodRef) : Silent (addMethod m) := by
  refine .get_bind fun d => ?_
  split
  · exact Writes.pure _ d
  · exact Writes.bind (.modify _) (fun _ => .pure _) d

/-- The line about a freeze is none about an expansion. -/
theorem ClassDescriptor.freezeEvent?_silent {d : ClassDescriptor} {e : Event}
    (h : d.freezeEvent? = some e) : e.expands? = none := by
  unfold freezeEvent? at h
  split at h
  · cases h
  · rw [← Option.some.inj h]
    rfl

/-- Classifying writes the line about the freeze, and only the first time. -/
theorem ClassDescriptor.classify_silent : Silent classify := by
  refine .get_bind fun d => ?_
  exact Writes.bind (.tellAll fun e he => freezeEvent?_silent (Option.mem_toList.mp he))
    (fun _ => .bind (.modify _) fun _ => .pure _) d

/-- No request to a descriptor expands a method. -/
theorem ClassRequest.serve_silent (q : ClassRequest) : Silent q.serve := by
  cases q with
  | addField f => exact .map (ClassDescriptor.addField_silent f) _
  | addMethod m => exact .map (ClassDescriptor.addMethod_silent m) _
  | hasMethod m => exact .map .get _
  | isFrozen => exact .map .get _
  | classify => exact .map ClassDescriptor.classify_silent _
  | buckets => exact .map ClassDescriptor.classify_silent _
  | referenceCount => exact .map ClassDescriptor.classify_silent _
  | staticSize => exact .map ClassDescriptor.classify_silent _
  | field name => exact .map ClassDescriptor.classify_silent _
  | fields => exact .map .get _
  | describe => exact .map .get _
  | copy => exact .pure _

namespace Catalog

/-- A new class has a line of its own, which names no method. -/
theorem ensureClass_silent (packing : Packing) (parent : Option ClassId) (name : String) :
    Silent (ensureClass packing parent name) := by
  refine .get_bind fun c => ?_
  split
  · exact Writes.pure _ c
  · exact Writes.bind (E := fun e => e.expands? = none) (.tell rfl)
      (fun _ => .bind (.modify _) fun _ => .pure _) c

/-- Along a chain every new class has its line. -/
theorem ensureChain_silent (packing : Packing) (name : String) :
    ∀ (chain : List String) (parent : Option ClassId),
      Silent (ensureChain packing name parent chain)
  | [], parent => ensureClass_silent packing parent name
  | a :: rest, parent => .bind (ensureClass_silent packing parent a) fun id =>
      ensureChain_silent packing name rest (some id)

/-- A class that is looked up, refused or brought in is no expansion. -/
theorem classFor_silent (S : Setting) (name : String) : Silent (classFor S name) := by
  refine .get_bind fun c => ?_
  split
  · exact Writes.pure _ c
  · split
    · exact Writes.fail _ c
    · split
      · exact Writes.fail _ c
      · exact ensureChain_silent _ _ _ _ c

theorem bringIn_silent (S : Setting) (t : HostType) : Silent (bringIn S t) := by
  unfold bringIn
  split
  · exact .pure _
  · exact .bind (classFor_silent S _) fun _ => .pure _

theorem onClass_silent {α : Type} (id : ClassId) {x : Action ClassDescriptor α} (hx : Silent x) :
    Silent (onClass id x) := by
  refine .get_bind fun c => ?_
  split
  · exact Writes.fail _ c
  · exact Writes.onPart hx c

/-- Every level that is recorded has a line, which names a type. -/
theorem recordArray_silent (S : Setting) (t : HostType) : Silent (recordArray S t) := by
  refine .get_bind fun c => ?_
  dsimp only
  split
  · exact Writes.pure _ c
  · refine Writes.bind (.tellAll fun e he => ?_) (fun _ => ?_) c
    · obtain ⟨level, -, rfl⟩ := List.mem_map.mp he
      rfl
    · exact .bind (.modify _) fun _ => .bind (bringIn_silent S t) fun _ => .pure _

theorem recordArrays_silent (S : Setting) : ∀ ts : List HostType, Silent (recordArrays S ts)
  | [] => .pure _
  | t :: rest => .bind (recordArray_silent S t) fun _ => recordArrays_silent S rest

/-- A method is registered without being expanded : the line is written by the walk. -/
theorem registerMethod_silent (S : Setting) (m : MethodRef) : Silent (registerMethod S m) :=
  .bind (classFor_silent S _) fun id => onClass_silent id (ClassDescriptor.addMethod_silent m)

/-- Neither the field nor what its type mentions expands a method. -/
theorem registerField_silent (S : Setting) (access : FieldRef) :
    Silent (registerField S access) := by
  refine .bind (classFor_silent S _) fun through => .get_bind fun c => ?_
  split
  · exact Writes.fail _ c
  · refine Writes.bind (onClass_silent _ (ClassDescriptor.addField_silent _)) (fun added => ?_) c
    split
    · exact .pure _
    · exact .bind (bringIn_silent S _) fun _ => .bind (recordArray_silent S _) fun _ => .pure _

theorem registerFields_silent (S : Setting) :
    ∀ accesses : List FieldRef, Silent (registerFields S accesses)
  | [] => .pure _
  | access :: rest => .bind (registerField_silent S access) fun _ =>
      .bind (registerFields_silent S rest) fun _ => .pure _

/-- Freezing all classes writes lines about freezes only. -/
theorem classifyAll_silent : Silent classifyAll := by
  refine .get_bind fun c => Writes.bind (.tellAll fun e he => ?_) (fun _ => .modify _) c
  obtain ⟨d, -, hd⟩ := List.mem_filterMap.mp he
  exact ClassDescriptor.freezeEvent?_silent hd

end Catalog

/-! ## Marks and lines -/

namespace Registry

variable {S : Setting} {α β : Type}

/-- What an action adds to the marked methods is what its log says was expanded. -/
def Records (x : Action Registry α) : Prop :=
  ∀ r, (x.run r).state.walked = r.walked ++ expansions (x.run r).log

namespace Records

/-- What marks no method and names none in its log adds the same to both : nothing. -/
theorem of_silent {x : Action Registry α} (h : Silent x)
    (hwalked : ∀ r, (x.run r).state.walked = r.walked) : Records x := by
  intro r
  rw [hwalked, h.expansions_eq, List.append_nil]

protected theorem pure (a : α) : Records (Pure.pure a : Action Registry α) :=
  of_silent (.pure a) fun _ => rfl

protected theorem fail (e : LayoutError) : Records (Action.fail e : Action Registry α) :=
  of_silent (.fail e) fun _ => rfl

protected theorem get : Records (Action.get : Action Registry Registry) :=
  of_silent .get fun _ => rfl

protected theorem tell {e : Event} (h : e.expands? = none) : Records (Action.tell e) :=
  of_silent (.tell h) fun _ => rfl

/-- Marks are no part of the catalog, so a silent action on it leaves them alone. -/
theorem onCatalog {x : Action Catalog α} (h : Silent x) : Records (onCatalog x) :=
  of_silent (.onPart h) fun _ => rfl

/-- The marks and the log of a sequence grow in the same order. -/
protected theorem bind {x : Action Registry α} {f : α → Action Registry β} (hx : Records x)
    (hf : ∀ a, Records (f a)) : Records (x >>= f) := by
  intro r
  rw [run_bind, Outcome.andThen]
  split
  · next a h =>
    show ((f a).run (x.run r).state).state.walked = r.walked ++ expansions (_ ++ _)
    rw [hf, hx r, expansions_append, List.append_assoc]
  · exact hx r

protected theorem map {x : Action Registry α} (hx : Records x) (f : α → β) : Records (f <$> x) :=
  .bind hx fun a => .pure (f a)

/-- An action may look at the registry first, and is judged by what it does on what it saw. -/
theorem get_bind {f : Registry → Action Registry α}
    (h : ∀ r, ((f r).run r).state.walked = r.walked ++ expansions ((f r).run r).log) :
    Records (Action.get >>= f) :=
  h

end Records

/-- Collecting the fields and arrays of a method comes behind its line and adds none. -/
theorem collect_silent (S : Setting) (facts : MethodFacts) : Silent (collect S facts) :=
  .bind (Catalog.registerFields_silent S _) fun _ =>
    .bind (Catalog.recordArrays_silent S _) fun _ => .pure _

/-- An expansion marks its method and says so, unless the method cannot be registered. -/
theorem expand_records (S : Setting) (m : MethodRef) (facts : MethodFacts) :
    Records (expand S m facts) := by
  refine .bind (.onCatalog (Catalog.registerMethod_silent S m)) fun _ r => ?_
  show r.walked ++ [m] = r.walked ++ m :: expansions ((collect S facts).run r.catalog).log
  rw [(collect_silent S facts).expansions_eq]

/-- A queue marks the methods it expands in the order of their lines. Methods that are passed over
have neither a new mark nor a line. -/
theorem expandAll_records (S : Setting) (g : CallGraph) (queue : List MethodRef) :
    Records ⟨expandAll S g queue⟩ := by
  intro r
  show (expandAll S g queue r).state.walked = r.walked ++ expansions (expandAll S g queue r).log
  fun_induction expandAll S g queue r with
  | case1 r => exact (List.append_nil _).symm
  | case2 r m rest hw ih => exact ih
  | case3 r m rest hw hf => exact (List.append_nil _).symm
  | case4 r m rest hw facts hf e he => exact expand_records S m facts r
  | case5 r m rest hw facts hf n he o more ih =>
    show (expandAll S g (rest ++ more) o.state).state.walked = r.walked ++ expansions (o.log ++ _)
    rw [ih, expand_records S m facts r, expansions_append, List.append_assoc]
    rfl

/-- The line at the end of a walk counts what was found and names no method. -/
theorem walk_records (S : Setting) (g : CallGraph) (entries : List MethodRef) :
    Records (walk S g entries) :=
  .bind .get fun _ => .bind (expandAll_records S g entries) fun _ => .bind .get fun _ =>
    .bind (.tell rfl) fun _ => .pure _

theorem descriptor_records (id : ClassId) : Records (descriptor id) := by
  refine .get_bind fun r => ?_
  split
  · exact Records.fail _ r
  · exact Records.pure _ r

/-- The mark of a class is not a mark of its methods, and has no line. -/
theorem walkClass_records (S : Setting) (g : CallGraph) (id : ClassId) :
    Records (walkClass S g id) := by
  refine .bind (descriptor_records id) fun d => ?_
  split
  · exact .pure _
  · exact .bind (.onCatalog (Catalog.onClass_silent id (.modify _))) fun _ => walk_records S g _

/-- Recording the array types of methods does not walk the methods. -/
theorem recordArraysOf_records (S : Setting) (g : CallGraph) :
    ∀ ms : List MethodRef, Records (recordArraysOf S g ms)
  | [] => .pure _
  | m :: rest => by
    unfold recordArraysOf
    split
    · exact .fail _
    · exact .bind (.onCatalog (Catalog.recordArrays_silent S _)) fun _ =>
        recordArraysOf_records S g rest

/-- The array types of a class are recorded without marking its methods. -/
theorem walkClassArrays_records (S : Setting) (g : CallGraph) (id : ClassId) :
    Records (walkClassArrays S g id) := by
  refine .bind (descriptor_records id) fun d => ?_
  split
  · exact .pure _
  · refine .bind (.onCatalog (Catalog.onClass_silent id (.modify _))) fun _ => ?_
    refine .bind .get fun _ => .bind (recordArraysOf_records S g _) fun _ => ?_
    exact .bind .get fun _ => .pure _

/-- A class is visited by a walk over its methods, which names what it marks, and a look at their
arrays, which marks nothing. -/
theorem walkWhole_records (S : Setting) (g : CallGraph) (id : ClassId) :
    Records (walkWhole S g id) :=
  .bind (walkClass_records S g id) fun _ => .bind (walkClassArrays_records S g id) fun _ => .pure _

/-- A sweep names the methods of all classes it visits, class by class. -/
theorem walkFrom_records (S : Setting) (g : CallGraph) (next : Nat) :
    Records ⟨walkFrom S g next⟩ := by
  intro r
  show (walkFrom S g next r).state.walked = r.walked ++ expansions (walkFrom S g next r).log
  fun_induction walkFrom S g next r with
  | case1 next r hn e he => exact walkWhole_records S g ⟨next⟩ r
  | case2 next r hn found hw o ih =>
    show (walkFrom S g (next + 1) o.state).state.walked = r.walked ++ expansions (o.log ++ _)
    rw [ih, walkWhole_records S g ⟨next⟩ r, expansions_append, List.append_assoc]
    rfl
  | case3 next r hn => exact (List.append_nil _).symm

/-! ## Layouts mark nothing -/

/-- A layout that is kept has a line, which names a class. -/
theorem layOutChain_records (config : LayoutConfig) (target : ClassDescriptor) :
    ∀ (ids : List ClassId) (parentSize : Option UInt32),
      Records (layOutChain config target ids parentSize)
  | [], _ => .pure _
  | id :: rest, parentSize => by
    unfold layOutChain
    refine .get_bind fun r => ?_
    split
    · exact layOutChain_records config target rest _ r
    · split
      · exact Records.fail _ r
      · split
        · exact Records.fail _ r
        · refine Records.bind (.tell rfl) (fun _ => .bind ?_ fun _ => ?_) r
          · exact .of_silent (.modify _) fun _ => rfl
          · exact layOutChain_records config target rest _

/-- Neither a layout that is found nor one that is made marks a method. -/
theorem layoutOf_records (S : Setting) (id : ClassId) : Records (layoutOf S id) := by
  refine .get_bind fun r => ?_
  split
  · exact Records.fail _ r
  · split
    · exact Records.pure _ r
    · refine Records.bind (layOutChain_records _ _ _ _) (fun _ => .get_bind fun r' => ?_) r
      split
      · exact Records.pure _ r'
      · exact Records.fail _ r'

theorem layOutAll_records (S : Setting) : ∀ ids : List ClassId, Records (layOutAll S ids)
  | [] => .pure _
  | id :: rest => .bind (layoutOf_records S id) fun _ => layOutAll_records S rest

theorem classSize_records (S : Setting) (id : ClassId) : Records (classSize S id) :=
  .map (layoutOf_records S id) _

/-- A size that is missing is warned about, in a line that names no method. -/
theorem classSizeOrZero_records (S : Setting) (id : ClassId) : Records (classSizeOrZero S id) := by
  refine .bind (x := attempt (classSize S id)) (classSize_records S id) fun res => ?_
  cases res with
  | ok n => exact .pure n
  | error e => exact .bind (.tell rfl) fun _ => .pure 0

/-- Finalizing freezes and lays out; it walks nothing. -/
theorem finalize_records (S : Setting) : Records (finalize S) := by
  refine .bind (.onCatalog Catalog.classifyAll_silent) fun _ => .bind .get fun r => ?_
  refine .bind (layOutAll_records S _) fun _ => .bind .get fun r' => ?_
  cases LayoutTable.snapshot S.config r' with
  | ok t => exact .pure t
  | error e => exact .fail e

end Registry

/-- Every request adds to the marked methods what its log says was expanded. -/
theorem Request.serve_records (S : Setting) (q : Request) : Registry.Records (q.serve S) := by
  cases q with
  | classFor name => exact .map (.onCatalog (Catalog.classFor_silent S name)) _
  | registerMethod m => exact .map (.onCatalog (Catalog.registerMethod_silent S m)) _
  | registerField access => exact .map (.onCatalog (Catalog.registerField_silent S access)) _
  | recordArray t => exact .map (.onCatalog (Catalog.recordArray_silent S t)) _
  | walk g entries => exact .map (Registry.walk_records S g entries) _
  | walkClass g id => exact .map (Registry.walkClass_records S g id) _
  | walkClassArrays g id => exact .map (Registry.walkClassArrays_records S g id) _
  | walkAll g => exact .map (x := Registry.walkAll S g) (Registry.walkFrom_records S g 0) _
  | classifyAll => exact .map (.onCatalog Catalog.classifyAll_silent) _
  | layoutOf id => exact .map (Registry.layoutOf_records S id) _
  | classSize id => exact .map (Registry.classSize_records S id) _
  | classSizeOrZero id => exact .map (Registry.classSizeOrZero_records S id) _
  | finalize => exact .map (Registry.finalize_records S) _
  | onClass id q => exact .map (.onCatalog (Catalog.onClass_silent id q.serve_silent)) _

/-! ## The log of a history -/

namespace Registry

/-- All that requests write, one served after another. -/
def logFrom (S : Setting) : Registry → List Request → List Event
  | _, [] => []
  | r, q :: rest =>
    let o := (q.serve S).run r
    o.log ++ logFrom S o.state rest

/-- All that a history writes. -/
def logAfter (S : Setting) (history : List Request) : List Event :=
  logFrom S {} history

/-- Served one after another, requests add to the marks what their logs name, one log behind the
other. -/
theorem walked_afterFrom (S : Setting) :
    ∀ (requests : List Request) (r : Registry),
      (afterFrom S r requests).walked = r.walked ++ expansions (logFrom S r requests)
  | [], _ => (List.append_nil _).symm
  | q :: rest, r => by
    show (afterFrom S ((q.serve S).run r).state rest).walked = _
    rw [walked_afterFrom S rest, q.serve_records S r, logFrom, expansions_append,
      List.append_assoc]

/-- The marked methods are those that the log says were expanded, in that order. -/
theorem expansions_logAfter (S : Setting) (history : List Request) :
    expansions (logAfter S history) = (after S history).walked :=
  ((walked_afterFrom S history {}).trans (List.nil_append _)).symm

end Registry

end DeviceLayout
