import DeviceLayout.Proofs.Catalog.WellFormed
import DeviceLayout.Proofs.Program.Ancestors
import Mathlib.Data.Set.Card

/-!
# The last declaration counts

A program is declared class by class, field by field and method by method, in any order. What it
answers is read off the declarations : a class exists from its first mention on, its parent is what
the last declaration of the class says, a field stands where its name was first declared and is
what was declared last, and so are the facts of a method (`Program.Stores`).

One declaration touches one entry (`valueOf?_upsert`), so the entry of a class is determined by the
declarations that mention it : the parents they give it and the fields they put on it, each in the
order of the declarations (`Program.class?_ofDeclarations`). The two do not interfere, whichever
came first. The fields of a class and the facts of methods are both written one after the other
into a keyed list, which holds every key once, with the last value (`map_fst_writeAll`,
`valueOf?_writeAll`).
-/

namespace DeviceLayout

/-! ## Keyed lists -/

section

variable {α β : Type} [DecidableEq α]

/-- A write adds its key at the end if it is new, and leaves the keys alone otherwise. -/
theorem map_fst_upsert (key : α) (f : Option β → β) (entries : List (α × β)) :
    (upsert key f entries).map (·.1) =
      if key ∈ entries.map (·.1) then entries.map (·.1) else entries.map (·.1) ++ [key] := by
  induction entries with
  | nil => simp [upsert]
  | cons e rest ih =>
    obtain ⟨k, v⟩ := e
    by_cases hk : k = key
    · simp [upsert, hk]
    · have hmem : key ∈ k :: rest.map (·.1) ↔ key ∈ rest.map (·.1) := by simp [Ne.symm hk]
      rw [upsert, if_neg hk, List.map_cons, ih, List.map_cons, if_congr hmem rfl rfl]
      split <;> rfl

/-- A key has a value if it has been written. -/
theorem isSome_valueOf? (key : α) (entries : List (α × β)) :
    (valueOf? key entries).isSome ↔ key ∈ entries.map (·.1) := by
  simp [valueOf?, List.find?_isSome]

/-- The entries left by writing values to keys, one after the other. -/
def writeAll (writes : List (α × β)) : List (α × β) :=
  writes.foldl (fun entries w => upsert w.1 (fun _ => w.2) entries) []

/-- The last write comes on top of all before it. -/
theorem writeAll_concat (writes : List (α × β)) (w : α × β) :
    writeAll (writes ++ [w]) = upsert w.1 (fun _ => w.2) (writeAll writes) := by
  simp [writeAll]

/-- Every key is there once, in the order of the first writes. -/
theorem map_fst_writeAll (writes : List (α × β)) :
    (writeAll writes).map (·.1) = (writes.map (·.1)).eraseDups := by
  induction writes using List.reverseRecOn with
  | nil => rfl
  | append_singleton writes w ih =>
    rw [writeAll_concat, map_fst_upsert, ih, List.map_append, List.map_singleton,
      eraseDups_concat, if_congr List.mem_eraseDups rfl rfl]

/-- Every key has the value that was written last. -/
theorem valueOf?_writeAll (writes : List (α × β)) (key : α) :
    valueOf? key (writeAll writes) =
      ((writes.filter fun w => w.1 = key).getLast?).map (·.2) := by
  induction writes using List.reverseRecOn with
  | nil => rfl
  | append_singleton writes w ih =>
    rw [writeAll_concat, valueOf?_upsert, ih, List.filter_append]
    by_cases hw : w.1 = key
    · simp [hw]
    · simp [hw, Ne.symm hw]

end

/-! ## The fields of one class -/

namespace HostClass

/-- Fields by their names. -/
def fieldEntries (fields : List HostField) : List (String × HostField) :=
  fields.map fun f => (f.name, f)

theorem map_fst_fieldEntries (fields : List HostField) :
    (fieldEntries fields).map (·.1) = fields.map (·.name) := by
  simp [fieldEntries]

theorem valueOf?_fieldEntries (fields : List HostField) (name : String) :
    valueOf? name (fieldEntries fields) = fields.find? fun f => f.name = name := by
  simp [valueOf?, fieldEntries, List.find?_map, Function.comp_def]

/-- Declaring a field is a write under its name. -/
theorem fieldEntries_declareField (field : HostField) (fields : List HostField) :
    fieldEntries (declareField field fields) =
      upsert field.name (fun _ => field) (fieldEntries fields) := by
  induction fields with
  | nil => rfl
  | cons f rest ih =>
    rw [declareField]
    by_cases hf : f.name = field.name
    · simp [fieldEntries, upsert, hf]
    · rw [if_neg hf]
      exact (congrArg ((f.name, f) :: ·) ih).trans (if_neg hf).symm

/-- The fields of a class on which fields were declared, one after the other. -/
def declareFields (fields : List HostField) : List HostField :=
  fields.foldl (fun declared f => declareField f declared) []

/-- Fields that are declared later are declared on top of the earlier ones. -/
theorem declareFields_append (fields more : List HostField) :
    declareFields (fields ++ more) =
      more.foldl (fun declared f => declareField f declared) (declareFields fields) := by
  simp [declareFields]

/-- Declaring fields one after another is writing them one after another. -/
theorem fieldEntries_declareFields (fields : List HostField) :
    fieldEntries (declareFields fields) = writeAll (fieldEntries fields) := by
  induction fields using List.reverseRecOn with
  | nil => rfl
  | append_singleton fields f ih =>
    have hsplit : fieldEntries (fields ++ [f]) = fieldEntries fields ++ [(f.name, f)] :=
      List.map_append
    rw [declareFields_append, hsplit, writeAll_concat, ← ih]
    exact fieldEntries_declareField ..

/-- The fields of a class stand in the order in which their names were first declared. -/
theorem map_name_declareFields (fields : List HostField) :
    (declareFields fields).map (·.name) = (fields.map (·.name)).eraseDups := by
  rw [← map_fst_fieldEntries, fieldEntries_declareFields, map_fst_writeAll, map_fst_fieldEntries]

/-- A class has one field of a name, however often it is declared. -/
theorem nodup_declareFields (fields : List HostField) :
    ((declareFields fields).map (·.name)).Nodup :=
  map_name_declareFields fields ▸ nodup_eraseDups _

/-- A name finds the field that was declared last under it. -/
theorem find?_declareFields (fields : List HostField) (name : String) :
    (declareFields fields).find? (fun f => f.name = name) =
      (fields.filter fun f => f.name = name).getLast? := by
  rw [← valueOf?_fieldEntries, fieldEntries_declareFields, valueOf?_writeAll]
  simp [fieldEntries, List.filter_map, Function.comp_def, List.getLast?_map]

theorem getLast?_of_mem_declareFields {fields : List HostField} {f : HostField}
    (hf : f ∈ declareFields fields) :
    (fields.filter fun g => g.name = f.name).getLast? = some f := by
  rw [← find?_declareFields]
  exact (find?_eq_some_iff_of_nodup (nodup_declareFields fields)).mpr ⟨hf, rfl⟩

end HostClass

/-! ## Sequences of declarations -/

/-- A declaration about the host program. -/
inductive Declaration where
  | ofClass (name : String) (parent : Option String)
  | ofField (className : String) (field : HostField)
  | ofMethod (method : MethodRef) (facts : MethodFacts)
  deriving DecidableEq, Repr

namespace Declaration

/-- The class that a declaration mentions. -/
def className? : Declaration → Option String
  | ofClass name _ => some name
  | ofField className _ => some className
  | ofMethod _ _ => none

/-- The parent that a declaration gives to class `c`. -/
def parent? (c : String) : Declaration → Option (Option String)
  | ofClass name parent => if name = c then some parent else none
  | _ => none

/-- The field that a declaration puts on class `c`. -/
def field? (c : String) : Declaration → Option HostField
  | ofField className field => if className = c then some field else none
  | _ => none

/-- The facts that a declaration records, with their method. -/
def facts? : Declaration → Option (MethodRef × MethodFacts)
  | ofMethod method facts => some (method, facts)
  | _ => none

variable (ds : List Declaration)

/-- The classes that are mentioned, in order. -/
def classNames : List String :=
  ds.filterMap className?

/-- The parent in the last declaration of class `c`; none if there is no declaration of `c`. -/
def lastParent (c : String) : Option String :=
  (ds.filterMap (parent? c)).getLast?.join

/-- The fields put on class `c`, in order. -/
def fields (c : String) : List HostField :=
  ds.filterMap (field? c)

/-- The last field of a name put on class `c`. -/
def lastField (c name : String) : Option HostField :=
  ((fields ds c).filter fun f => f.name = name).getLast?

/-- The last facts recorded for method `m`. -/
def lastFacts (m : MethodRef) : Option MethodFacts :=
  (((ds.filterMap facts?).filter fun w => w.1 = m).getLast?).map (·.2)

section

variable (d : Declaration)

/-- One more declaration adds the name of the class it is about, if it is about one. -/
theorem classNames_concat : classNames (ds ++ [d]) = classNames ds ++ d.className?.toList := by
  cases h : d.className? <;> simp [classNames, h]

/-- The parent is that of the last declaration, if this declares the class, and the one before
otherwise. -/
theorem lastParent_concat (c : String) :
    lastParent (ds ++ [d]) c = (d.parent? c).getD (lastParent ds c) := by
  cases h : d.parent? c <;> simp [lastParent, h]

theorem fields_concat (c : String) : fields (ds ++ [d]) c = fields ds c ++ (d.field? c).toList := by
  cases h : d.field? c <;> simp [fields, h]

end

end Declaration

namespace Program

/-- Make a declaration. -/
def declare (P : Program) : Declaration → Program
  | .ofClass name parent => P.declareClass name parent
  | .ofField className field => P.declareField className field
  | .ofMethod method facts => P.declareMethod method facts

/-- The program that declarations make, one after the other. -/
def ofDeclarations (ds : List Declaration) : Program :=
  ds.foldl declare {}

variable {P : Program} {ds : List Declaration}

/-- A program of one more declaration is the program of those before, with this one made. -/
theorem ofDeclarations_concat (ds : List Declaration) (d : Declaration) :
    ofDeclarations (ds ++ [d]) = (ofDeclarations ds).declare d := by
  simp [ofDeclarations]

theorem isSome_class?_iff {c : String} : (P.class? c).isSome ↔ c ∈ P.classNames :=
  isSome_valueOf? c P.classes

/-- Declaring a class sets its parent, keeps its fields, and leaves other classes alone. -/
theorem class?_declareClass (name c : String) (parent : Option String) :
    (P.declareClass name parent).class? c =
      if c = name then some { (P.class? name).getD {} with parent := parent } else P.class? c :=
  valueOf?_upsert ..

/-- Declaring a field adds it to its class, which is there from then on, and leaves other classes
alone. -/
theorem class?_declareField (className c : String) (field : HostField) :
    (P.declareField className field).class? c =
      if c = className then
        some { (P.class? className).getD {} with
          fields := HostClass.declareField field ((P.class? className).getD {}).fields }
      else P.class? c :=
  valueOf?_upsert ..

/-- A class that is mentioned for the first time goes to the end. -/
theorem classNames_declare (d : Declaration) :
    (P.declare d).classNames =
      match d.className? with
      | some c => if c ∈ P.classNames then P.classNames else P.classNames ++ [c]
      | none => P.classNames := by
  cases d with
  | ofClass name parent => exact map_fst_upsert ..
  | ofField className field => exact map_fst_upsert ..
  | ofMethod m facts => rfl

/-- The classes of a program stand in the order in which they were first declared, by a field of
theirs or on their own. -/
theorem classNames_ofDeclarations (ds : List Declaration) :
    (ofDeclarations ds).classNames = (Declaration.classNames ds).eraseDups := by
  induction ds using List.reverseRecOn with
  | nil => rfl
  | append_singleton ds d ih =>
    rw [ofDeclarations_concat, classNames_declare, ih, Declaration.classNames_concat]
    cases d.className? with
    | none => simp
    | some c => simp [eraseDups_concat]

/-- The step : what a declaration says about class `c` is applied to the entry of `c`. -/
theorem getD_class?_declare (P : Program) (d : Declaration) (c : String) :
    ((P.declare d).class? c).getD {} =
      { parent := (d.parent? c).getD ((P.class? c).getD {}).parent
        fields := (d.field? c).toList.foldl (fun declared f => HostClass.declareField f declared)
          ((P.class? c).getD {}).fields } := by
  cases d with
  | ofClass name parent =>
    rw [declare, class?_declareClass]
    by_cases hc : c = name
    · simp [hc, Declaration.parent?, Declaration.field?]
    · simp [hc, Ne.symm hc, Declaration.parent?, Declaration.field?]
  | ofField className field =>
    rw [declare, class?_declareField]
    by_cases hc : c = className
    · simp [hc, Declaration.parent?, Declaration.field?]
    · simp [hc, Ne.symm hc, Declaration.parent?, Declaration.field?]
  | ofMethod m facts => rfl

/-- The entry of a class that declarations describe. -/
def entryOf (ds : List Declaration) (c : String) : HostClass where
  parent := Declaration.lastParent ds c
  fields := HostClass.declareFields (Declaration.fields ds c)

/-- What a program holds for a class is what its declarations come to. -/
theorem getD_class?_ofDeclarations (ds : List Declaration) (c : String) :
    ((ofDeclarations ds).class? c).getD {} = entryOf ds c := by
  induction ds using List.reverseRecOn with
  | nil => rfl
  | append_singleton ds d ih =>
    rw [ofDeclarations_concat, getD_class?_declare, ih, entryOf, entryOf,
      Declaration.lastParent_concat, Declaration.fields_concat, HostClass.declareFields_append]

/-- A class has the entry that the declarations describe if one of them mentions it, and none
otherwise. -/
theorem class?_ofDeclarations (ds : List Declaration) (c : String) :
    (ofDeclarations ds).class? c =
      if c ∈ Declaration.classNames ds then some (entryOf ds c) else none := by
  have hmem : ((ofDeclarations ds).class? c).isSome ↔ c ∈ Declaration.classNames ds := by
    rw [isSome_class?_iff, classNames_ofDeclarations, List.mem_eraseDups]
  rw [← getD_class?_ofDeclarations, ← if_congr hmem rfl rfl]
  cases (ofDeclarations ds).class? c <;> rfl

theorem class?_eq_entryOf {c : String} {q : HostClass}
    (h : (ofDeclarations ds).class? c = some q) : q = entryOf ds c := by
  rw [class?_ofDeclarations] at h
  split at h <;> simp_all

theorem parent_ofDeclarations (ds : List Declaration) (c : String) :
    ((ofDeclarations ds).class? c).bind (·.parent) = Declaration.lastParent ds c := by
  have hparent := congrArg HostClass.parent (getD_class?_ofDeclarations ds c)
  rw [entryOf] at hparent
  cases h : (ofDeclarations ds).class? c <;> simpa [h] using hparent

/-- The host lists the fields of a class in the order of their first declarations, each as it was
declared last. -/
theorem declaredFields_ofDeclarations {c : String} {fields : List HostField}
    (h : (ofDeclarations ds).host.declaredFields c = some fields) :
    fields = HostClass.declareFields (Declaration.fields ds c) := by
  obtain ⟨q, hq, rfl⟩ := Option.map_eq_some_iff.mp h
  rw [class?_eq_entryOf hq, entryOf]

/-- The host answers with the last declaration of a field. -/
theorem declaredField_ofDeclarations (ds : List Declaration) (c name : String) :
    (ofDeclarations ds).host.declaredField c name = Declaration.lastField ds c name := by
  have hfind := congrArg (fun q => q.fields.find? fun f => f.name = name)
    (getD_class?_ofDeclarations ds c)
  rw [entryOf] at hfind
  rw [Declaration.lastField, ← HostClass.find?_declareFields, ← hfind, host]
  cases h : (ofDeclarations ds).class? c <;> simp [h]

/-- Declaring a class once more takes no field away. -/
theorem declaredFields_declareClass {c : String} {fields : List HostField}
    (h : P.host.declaredFields c = some fields) (name : String) (parent : Option String) :
    (P.declareClass name parent).host.declaredFields c = some fields := by
  obtain ⟨q, hq, rfl⟩ := Option.map_eq_some_iff.mp h
  by_cases hc : c = name
  · subst hc
    simp [host, class?_declareClass, hq]
  · simp [host, class?_declareClass, hc, hq]

/-- The call graph answers with the facts that were declared last. -/
theorem facts?_ofDeclarations (ds : List Declaration) (m : MethodRef) :
    (ofDeclarations ds).graph.facts? m = Declaration.lastFacts ds m := by
  have hentries : (ofDeclarations ds).graph.entries =
      writeAll (ds.filterMap Declaration.facts?) := by
    induction ds using List.reverseRecOn with
    | nil => rfl
    | append_singleton ds d ih =>
      rw [ofDeclarations_concat, List.filterMap_append]
      cases d with
      | ofClass name parent => exact ih.trans (congrArg writeAll (List.append_nil _).symm)
      | ofField className field => exact ih.trans (congrArg writeAll (List.append_nil _).symm)
      | ofMethod m facts =>
        exact (congrArg (upsert m fun _ => facts) ih).trans (writeAll_concat _ (m, facts)).symm
  exact (congrArg (valueOf? m) hentries).trans (valueOf?_writeAll _ m)

/-- The classes that a program answers for are the ones it counts. -/
theorem encard_contains (hnodup : P.classNames.Nodup) :
    {c | P.host.contains c = true}.encard = P.classCount := by
  have hset : {c | P.host.contains c = true} = (P.classNames.toFinset : Set String) := by
    ext c
    simp [host, isSome_class?_iff]
  rw [hset, Set.encard_coe_eq_coe_finsetCard, List.toFinset_card_of_nodup hnodup, classNames,
    List.length_map, classCount]

/-! ## What a program stores -/

/-- The last declaration counts : what a program answers when it was made by `ds`. -/
structure Stores (ds : List Declaration) (P : Program) : Prop where
  /-- The classes that were mentioned. -/
  contains (c : String) : P.host.contains c = true ↔ ∃ d ∈ ds, d.className? = some c
  /-- The parent that the last declaration of the class gave it. -/
  parent (c : String) : (P.class? c).bind (·.parent) = Declaration.lastParent ds c
  /-- A chain of ancestors starts with this parent. -/
  ancestors {c : String} {above : List String} (h : P.host.ancestors c = some above) :
    above.head? = Declaration.lastParent ds c
  /-- Classes have fields, and nothing else has. -/
  isSome_declaredFields (c : String) :
    (P.host.declaredFields c).isSome = P.host.contains c
  /-- Names of fields, each once, in the order of their first declarations. -/
  names {c : String} {fields : List HostField} (h : P.host.declaredFields c = some fields) :
    fields.map (·.name) = ((Declaration.fields ds c).map (·.name)).eraseDups
  nodup {c : String} {fields : List HostField} (h : P.host.declaredFields c = some fields) :
    (fields.map (·.name)).Nodup
  /-- Each field as it was declared last. -/
  last {c : String} {fields : List HostField} (h : P.host.declaredFields c = some fields)
    {f : HostField} (hf : f ∈ fields) : Declaration.lastField ds c f.name = some f
  declaredField (c name : String) :
    P.host.declaredField c name = Declaration.lastField ds c name
  /-- Declaring a class once more takes no field away. -/
  declareClass {c : String} {fields : List HostField}
    (h : P.host.declaredFields c = some fields) (name : String) (parent : Option String) :
    (P.declareClass name parent).host.declaredFields c = some fields
  facts (m : MethodRef) : P.graph.facts? m = Declaration.lastFacts ds m
  classCount : P.classCount = {c | P.host.contains c = true}.encard

theorem stores_ofDeclarations (ds : List Declaration) : (ofDeclarations ds).Stores ds where
  contains c := by
    rw [host, isSome_class?_iff, classNames_ofDeclarations, List.mem_eraseDups]
    exact List.mem_filterMap
  parent := parent_ofDeclarations ds
  ancestors h := by
    obtain ⟨q, hq, hparent⟩ := class?_of_ancestors h
    rw [← hparent, class?_eq_entryOf hq, entryOf]
  isSome_declaredFields c := by simp [host]
  names h := declaredFields_ofDeclarations h ▸ HostClass.map_name_declareFields _
  nodup h := declaredFields_ofDeclarations h ▸ HostClass.nodup_declareFields _
  last h _ hf := by
    rw [declaredFields_ofDeclarations h] at hf
    exact HostClass.getLast?_of_mem_declareFields hf
  declaredField := declaredField_ofDeclarations ds
  declareClass := declaredFields_declareClass
  facts := facts?_ofDeclarations ds
  classCount := (encard_contains (classNames_ofDeclarations ds ▸ nodup_eraseDups _)).symm

/-- A class that fields were put on first gets a parent later, and a field keeps its place. -/
example :
    let P := ofDeclarations [.ofField "A" ⟨"x", .primitive .int, false⟩,
      .ofField "A" ⟨"y", .named "A", false⟩, .ofClass "B" none, .ofClass "A" (some "B"),
      .ofField "A" ⟨"x", .primitive .long, true⟩]
    P.host.ancestors "A" = some ["B"] ∧ P.host.declaredFields "A" =
      some [⟨"x", .primitive .long, true⟩, ⟨"y", .named "A", false⟩] := by
  decide +kernel

end Program

end DeviceLayout
