import DeviceLayout.Proofs.Catalog.Endings
import DeviceLayout.Proofs.History
import DeviceLayout.Proofs.Layout.PackingOrder

/-!
# What a descriptor promises

Requests to a descriptor come in any order, and the first one that asks about classified fields
freezes the field list (`ClassDescriptor.frozen_after`). Up to then every registration succeeds;
from then on only that of a name that is known. So a field that is looked up by name is the one
whose registration was the first to succeed (`ClassDescriptor.find?_fields_after`).

The buckets are computed from the field list whenever they are asked for. They hold every field
once, in the bucket of its kind and in packing order (`ClassDescriptor.WellFormed.sorts_buckets`),
and do not change any more, as the list does not. `ClassDescriptor.contract_after` collects what
holds after a history of any length. A copy of a descriptor is the same value and goes on with a
history of its own.
-/

open DeviceLayout.Action

namespace DeviceLayout

/-! ## Buckets -/

/-- `b` holds the fields, each once and in the bucket of its kind, and every bucket strictly
increases in the packing order. -/
structure Buckets.Sorts (b : Buckets) (packing : Packing) (fields : List Field) : Prop where
  perm : (b.instanceRefs ++ b.instanceValues ++ (b.staticRefs ++ b.staticValues)).Perm fields
  nodup : (b.instanceRefs ++ b.instanceValues ++ (b.staticRefs ++ b.staticValues)).Nodup
  instanceRefs : ∀ f ∈ b.instanceRefs, f.isReference = true ∧ f.isStatic = false
  instanceValues : ∀ f ∈ b.instanceValues, f.isReference = false ∧ f.isStatic = false
  staticRefs : ∀ f ∈ b.staticRefs, f.isReference = true ∧ f.isStatic = true
  staticValues : ∀ f ∈ b.staticValues, f.isReference = false ∧ f.isStatic = true
  increasing : ∀ bucket ∈ [b.instanceRefs, b.instanceValues, b.staticRefs, b.staticValues],
    bucket.Pairwise fun f g => packing.compare f g = .lt

namespace ClassDescriptor

/-- The buckets of a class hold its fields. -/
theorem WellFormed.sorts_buckets {d : ClassDescriptor} (hd : d.WellFormed) :
    d.buckets.Sorts d.packing d.fields where
  perm := Buckets.all_perm d.packing d.fields
  nodup := (Buckets.all_perm d.packing d.fields).nodup_iff.mpr hd.names_nodup.of_map
  instanceRefs f hf := by
    simpa [Field.isInstance] using (List.mem_filter.mp (Packing.mem_sort.mp hf)).2
  instanceValues f hf := by
    simpa [Field.isInstance] using (List.mem_filter.mp (Packing.mem_sort.mp hf)).2
  staticRefs f hf := by simpa using (List.mem_filter.mp (Packing.mem_sort.mp hf)).2
  staticValues f hf := by simpa using (List.mem_filter.mp (Packing.mem_sort.mp hf)).2
  increasing := by
    have hsorted (kind : Field → Bool) : (d.packing.sort (d.fields.filter kind)).Pairwise
        fun f g => d.packing.compare f g = .lt :=
      d.packing.pairwise_sort_lt (hd.keys_nodup.sublist (List.filter_sublist.map _))
    intro bucket hbucket
    simp only [List.mem_cons, List.not_mem_nil, or_false] at hbucket
    rcases hbucket with rfl | rfl | rfl | rfl <;> exact hsorted _

end ClassDescriptor

/-! ## Requests -/

/-- Whether the request asks about classified fields. -/
def ClassRequest.classifies : ClassRequest → Bool
  | classify | buckets | referenceCount | staticSize | field _ => true
  | addField _ | addMethod _ | hasMethod _ | isFrozen | fields | describe | copy => false

/-- The declaration the request registers, if it is a registration of a field and succeeds. -/
def ClassRequest.declared? (q : ClassRequest) (d : ClassDescriptor) : Option HostField :=
  match q, (q.serve.run d).result with
  | addField f, .ok _ => some f
  | _, _ => none

namespace ClassDescriptor

variable {d d₀ : ClassDescriptor}

/-- A descriptor that was just created. -/
def fresh (id : ClassId) (hostName : String) (parent : Option ClassId) (packing : Packing) :
    ClassDescriptor :=
  { id, hostName, parent, packing }

/-- The descriptor that requests lead to, one served after another. -/
def after (d : ClassDescriptor) (requests : List ClassRequest) : ClassDescriptor :=
  requests.foldl (fun d q => (q.serve.run d).state) d

/-- The declarations of the fields whose registrations succeeded, in the order of the requests. -/
def declared (d : ClassDescriptor) : List ClassRequest → List HostField
  | [] => []
  | q :: rest => (q.declared? d).toList ++ declared (q.serve.run d).state rest

theorem after_reaches : ∀ (requests : List ClassRequest) (d : ClassDescriptor),
    d.Reaches (d.after requests)
  | [], _ => .refl
  | q :: rest, d => (q.serve_keeps d).trans (after_reaches rest _)

theorem Reaches.extends (h : d₀.Reaches d) : d₀.Extends d := by
  induction h with
  | refl => exact .refl d₀
  | tail _ hstep ih => exact ih.trans hstep.extends

theorem WellFormed.reaches (hd : d₀.WellFormed) (h : d₀.Reaches d) : d.WellFormed := by
  induction h with
  | refl => exact hd
  | tail _ hstep ih => exact ih.change hstep

theorem WellFormed.fresh (id : ClassId) (hostName : String) (parent : Option ClassId)
    (packing : Packing) : (fresh id hostName parent packing).WellFormed where
  methods_nodup := List.nodup_nil
  names_nodup := List.nodup_nil
  owner_eq _ h := nomatch h

/-! ### Freezing -/

theorem serve_addField_run (f : HostField) (d : ClassDescriptor) :
    (ClassRequest.addField f).serve.run d =
      if d.hasField f.name then ⟨.ok (.flag false), d, []⟩
      else if d.frozen then ⟨.error (.classFrozen d.hostName f.name), d, []⟩
      else ⟨.ok (.flag true), { d with fields := d.fields ++ [⟨d.id, f⟩] }, []⟩ := by
  have hserve : (ClassRequest.addField f).serve = addField f >>= fun b => Pure.pure (.flag b) :=
    rfl
  rw [hserve]
  split_ifs with hknown hfrozen
  · rw [run_bind_of_ok (addField_of_known hknown)]
    rfl
  · rw [run_bind_of_error (addField_of_frozen (by simpa using hknown) hfrozen)]
  · rw [run_bind_of_ok (addField_of_new (by simpa using hknown) (by simpa using hfrozen))]
    rfl

theorem serve_addMethod_run (m : MethodRef) (d : ClassDescriptor) :
    (ClassRequest.addMethod m).serve.run d =
      if d.hasMethod m then ⟨.ok (.flag false), d, []⟩
      else ⟨.ok (.flag true), { d with methods := d.methods ++ [m] }, []⟩ := by
  have hserve : (ClassRequest.addMethod m).serve = addMethod m >>= fun b => Pure.pure (.flag b) :=
    rfl
  rw [hserve, run_bind, addMethod, run_get_bind]
  split_ifs <;> rfl

/-- Only a question about classified fields freezes the descriptor. -/
theorem frozen_serve (q : ClassRequest) (d : ClassDescriptor) :
    (q.serve.run d).state.frozen = (d.frozen || q.classifies) := by
  cases q with
  | addField f =>
    rw [serve_addField_run]
    split_ifs <;> exact (Bool.or_false _).symm
  | addMethod m =>
    rw [serve_addMethod_run]
    split_ifs <;> exact (Bool.or_false _).symm
  | classify | buckets | referenceCount | staticSize | field name =>
    exact (Bool.or_true _).symm
  | hasMethod m | isFrozen | fields | describe | copy => exact (Bool.or_false _).symm

theorem state_serve_of_classifies {q : ClassRequest} (hq : q.classifies = true)
    (d : ClassDescriptor) : (q.serve.run d).state = { d with frozen := true } := by
  cases q with
  | classify | buckets | referenceCount | staticSize | field name => rfl
  | addField f | addMethod m | hasMethod m | isFrozen | fields | describe | copy => cases hq

/-- A descriptor is frozen from the first question about classified fields on. -/
theorem frozen_after (requests : List ClassRequest) (d : ClassDescriptor) :
    (d.after requests).frozen = (d.frozen || requests.any ClassRequest.classifies) := by
  induction requests generalizing d with
  | nil => exact (Bool.or_false _).symm
  | cons q rest ih =>
    have hrest := ih (q.serve.run d).state
    rw [frozen_serve, Bool.or_assoc] at hrest
    exact hrest

/-! ### Looking up fields -/

/-- A field that is found after a request was there before, or the request registered it. Fields are
added behind those that are there, so the one that is there is found first. -/
theorem find?_fields_serve (q : ClassRequest) (d : ClassDescriptor) (name : String) :
    ((q.serve.run d).state.fields.find? fun f => f.name = name) =
      (d.fields.find? fun f => f.name = name).or
        (((q.declared? d).toList.find? fun f => f.name = name).map (Field.mk d.id)) := by
  cases q with
  | addField f =>
    unfold ClassRequest.declared?
    rw [serve_addField_run]
    split_ifs with hknown hfrozen
    · by_cases hname : f.name = name
      · obtain ⟨g, hg, hgn⟩ := hasField_iff.mp hknown
        have hsome : (d.fields.find? fun f => f.name = name).isSome :=
          List.find?_isSome.mpr ⟨g, hg, by simp [hgn, hname]⟩
        obtain ⟨found, hfound⟩ := Option.isSome_iff_exists.mp hsome
        rw [hfound, Option.some_or]
      · simp [hname]
    · exact (Option.or_none).symm
    · rw [List.find?_append]
      by_cases hname : f.name = name <;> simp [Field.name, hname]
  | addMethod m =>
    rw [serve_addMethod_run]
    split_ifs <;> exact (Option.or_none).symm
  | _ => exact (Option.or_none).symm

/-- A field that is found after a history is one that was there before, or the first one of its
name whose registration succeeded. -/
theorem find?_fields_after (requests : List ClassRequest) (d : ClassDescriptor) (name : String) :
    ((d.after requests).fields.find? fun f => f.name = name) =
      (d.fields.find? fun f => f.name = name).or
        (((d.declared requests).find? fun f => f.name = name).map (Field.mk d.id)) := by
  induction requests generalizing d with
  | nil => exact (Option.or_none).symm
  | cons q rest ih =>
    have hid : (q.serve.run d).state.id = d.id := (Reaches.extends (q.serve_keeps d)).id_eq
    have hrest := ih (q.serve.run d).state
    rw [find?_fields_serve, hid, Option.or_assoc, ← Option.map_or, ← List.find?_append] at hrest
    exact hrest

/-! ## The contract -/

/-- What holds of a descriptor `d` that a history of requests made of a new one, `d₀`. -/
structure Contract (d₀ d : ClassDescriptor) (history : List ClassRequest) : Prop where
  names_nodup : (d.fields.map (·.name)).Nodup
  methods_nodup : d.methods.Nodup
  frozen_iff : d.frozen = true ↔ ∃ q ∈ history, q.classifies = true
  /-- Before the first question about classified fields, registering a field succeeds and
  appends it, unless the name is known. -/
  addField_open : d.frozen = false → ∀ f : HostField,
    (ClassRequest.addField f).serve.run d =
      if f.name ∈ d.fields.map (·.name) then ⟨.ok (.flag false), d, []⟩
      else ⟨.ok (.flag true), { d with fields := d.fields ++ [⟨d₀.id, f⟩] }, []⟩
  /-- From then on nothing is registered, and a new name is an error. -/
  addField_frozen : d.frozen = true → ∀ f : HostField,
    (ClassRequest.addField f).serve.run d =
      if f.name ∈ d.fields.map (·.name) then ⟨.ok (.flag false), d, []⟩
      else ⟨.error (.classFrozen d₀.hostName f.name), d, []⟩
  /-- A question about classified fields itself only freezes the descriptor. -/
  question_state : ∀ q : ClassRequest, q.classifies = true →
    (q.serve.run d).state = { d with frozen := true }
  fields_frozen : d.frozen = true → ∀ more : List ClassRequest, (d.after more).fields = d.fields
  buckets_frozen : d.frozen = true → ∀ more : List ClassRequest,
    (d.after more).buckets = d.buckets
  buckets_answer : ∀ q ∈ [ClassRequest.classify, .buckets],
    (q.serve.run d).result = .ok (.buckets d.buckets)
  buckets_sort : d.buckets.Sorts d₀.packing d.fields
  instanceFields_eq : d.buckets.instanceFields =
    d.buckets.instanceRefs ++ d.buckets.instanceValues
  staticFields_eq : d.buckets.staticFields = d.buckets.staticRefs ++ d.buckets.staticValues
  /-- Looking up a name answers the first field of that name whose registration succeeded. -/
  field_answer : ∀ name : String, ((ClassRequest.field name).serve.run d).result =
    .ok (.field (((d₀.declared history).find? fun f => f.name = name).map (Field.mk d₀.id)))

/-- Where names differ, the buckets find the field that the list finds. -/
theorem WellFormed.field?_buckets (hd : d.WellFormed) (name : String) :
    d.buckets.field? name = d.fields.find? fun f => f.name = name := by
  refine Option.ext fun f => ?_
  rw [Buckets.field?, find?_eq_some_iff_of_nodup hd.bucketNames_nodup,
    find?_eq_some_iff_of_nodup hd.names_nodup]
  exact and_congr_left fun _ => (Buckets.all_perm d.packing d.fields).mem_iff

/-- Whatever is asked of a new descriptor, it keeps its contract. -/
theorem contract_after (id : ClassId) (hostName : String) (parent : Option ClassId)
    (packing : Packing) (history : List ClassRequest) :
    (fresh id hostName parent packing).Contract ((fresh id hostName parent packing).after history)
      history := by
  have hreach := after_reaches history (fresh id hostName parent packing)
  have hd := (WellFormed.fresh id hostName parent packing).reaches hreach
  have he := hreach.extends
  have hlater (more : List ClassRequest) := (after_reaches more
    ((fresh id hostName parent packing).after history)).extends
  have hlookup := find?_fields_after history (fresh id hostName parent packing)
  have hfrozen := frozen_after history (fresh id hostName parent packing)
  have hrun := fun f => serve_addField_run f ((fresh id hostName parent packing).after history)
  generalize (fresh id hostName parent packing).after history = d at *
  have hknown (f : HostField) : d.hasField f.name = true ↔ f.name ∈ d.fields.map (·.name) := by
    rw [hasField_iff, List.mem_map]
  exact {
    names_nodup := hd.names_nodup
    methods_nodup := hd.methods_nodup
    frozen_iff := by rw [hfrozen]; simp [fresh]
    addField_open := fun hopen f => by simp only [hrun, hknown, hopen, he.id_eq]; rfl
    addField_frozen := fun hf f => by simp only [hrun, hknown, hf, he.hostName_eq]; rfl
    question_state := fun q hq => state_serve_of_classifies hq d
    fields_frozen := fun hf more => ((hlater more).frozen hf).2
    buckets_frozen := fun hf more => (hlater more).buckets_eq hf
    buckets_answer := fun q hq => by
      rcases List.mem_pair.mp hq with rfl | rfl <;> rfl
    buckets_sort := he.packing_eq ▸ hd.sorts_buckets
    instanceFields_eq := rfl
    staticFields_eq := rfl
    field_answer := fun name => by
      have hfind := (hd.field?_buckets name).trans (hlookup name)
      rw [show (fresh id hostName parent packing).fields = [] from rfl, List.find?_nil,
        Option.none_or] at hfind
      exact congrArg (fun found => Except.ok (ClassReply.field found)) hfind }

end ClassDescriptor

end DeviceLayout
