import DeviceLayout.Proofs.Catalog.SelfContained

/-!
# How requests for discovery end

A class is refused only if the host does not know it or knows no chain of it, and the error says
which (`classFor_error_cases`). Recording an array type and registering a field end in one of few
ways (`RecordsArray`, `RegistersField`). Both add what they were asked for before they look for the
class its type mentions. If that class is refused, what was added stays : the same request again
finds nothing new, and succeeds (`recordArray_of_recorded`, `registerField_of_resolves`).
-/

open DeviceLayout.Action

namespace DeviceLayout

/-! ## Adding a field -/

namespace ClassDescriptor

variable {d : ClassDescriptor} {f : HostField}

theorem addField_of_known (hf : d.hasField f.name = true) :
    (addField f).run d = ⟨.ok false, d, []⟩ := by
  rw [addField, run_get_bind, if_pos hf]
  rfl

theorem addField_of_frozen (hf : d.hasField f.name = false) (hfrozen : d.frozen = true) :
    (addField f).run d = ⟨.error (.classFrozen d.hostName f.name), d, []⟩ := by
  rw [addField, run_get_bind, if_neg (by simp [hf]), if_pos hfrozen]
  rfl

theorem addField_of_new (hf : d.hasField f.name = false) (hopen : d.frozen = false) :
    (addField f).run d = ⟨.ok true, { d with fields := d.fields ++ [⟨d.id, f⟩] }, []⟩ := by
  rw [addField, run_get_bind, if_neg (by simp [hf]), if_neg (by simp [hopen])]
  rfl

end ClassDescriptor

namespace Catalog

variable {S : Setting} {c c' : Catalog} {id : ClassId} {d d' : ClassDescriptor} {t : HostType}

/-! ## Refusals -/

/-- A class that is there is found. -/
theorem classFor_of_known {name : String} (h : c.lookup name = some id) :
    (classFor S name).run c = ⟨.ok id, c, []⟩ := by
  rw [classFor, run_get_bind, h]
  rfl

/-- A class is refused only if the host does not know it, or knows no chain of it, and nothing is
changed then. -/
theorem classFor_error_cases (hc : c.WellFormed) {name : String} {e : LayoutError}
    (he : ((classFor S name).run c).result = .error e) :
    (classFor S name).run c = ⟨.error e, c, []⟩ ∧
      (S.host.contains name = false ∧ e = .unknownClass name ∨
        S.host.contains name = true ∧ S.host.ancestors name = none ∧
          e = .unresolvedAncestor name) := by
  rw [classFor, run_get_bind] at he ⊢
  split at he
  · cases he
  · split at he
    · next hunknown =>
      obtain rfl := Except.error.inj he
      rw [if_pos hunknown]
      exact ⟨rfl, Or.inl ⟨by simpa using hunknown, rfl⟩⟩
    · next hknown =>
      rw [if_neg hknown]
      split at he
      · next hanc =>
        obtain rfl := Except.error.inj he
        exact ⟨rfl, Or.inr ⟨by simpa using hknown, hanc, rfl⟩⟩
      · next ancestors hanc =>
        obtain ⟨-, id, hid, -⟩ := ensureWholeChain_ensures (A := .all) hc hanc fun _ _ => trivial
        cases hid.symm.trans he

/-- So a class that the host resolves is not refused. -/
theorem classFor_refused (hc : c.WellFormed) {name : String} {e : LayoutError}
    (he : ((classFor S name).run c).result = .error e) :
    (classFor S name).run c = ⟨.error e, c, []⟩ ∧ ¬ S.host.Resolves name := by
  obtain ⟨hrun, hcause⟩ := classFor_error_cases hc he
  refine ⟨hrun, fun ⟨hcontains, above, habove⟩ => ?_⟩
  rcases hcause with ⟨hunknown, -⟩ | ⟨-, hnone, -⟩
  · cases hcontains.symm.trans hunknown
  · cases hnone.symm.trans habove

/-- A type is refused only if the host does not resolve the class it mentions, and nothing is
brought in then. -/
theorem bringIn_refused (hc : c.WellFormed) :
    (bringIn S t).Ensures c fun res c' => ∀ e, res = .error e →
      c' = c ∧ ¬ t.RefersTo S.host.Resolves := by
  unfold bringIn
  split
  · exact .pure fun _ he => by cases he
  · next name hname =>
    refine Ensures.bind (Q := fun res c' => ∀ e, res = .error e →
      c' = c ∧ ¬ S.host.Resolves name) ?_ (fun id c' _ => .pure fun _ he => by cases he) ?_
    · intro e he
      obtain ⟨hrun, hres⟩ := classFor_refused hc he
      exact ⟨congrArg Outcome.state hrun, hres⟩
    · rintro e c' hrefused - -
      obtain ⟨hsame, hres⟩ := hrefused e rfl
      exact ⟨hsame, fun hR => hres (hR name hname)⟩

theorem missingArrays_eq_nil_iff :
    c.missingArrays t = [] ↔ ∀ level ∈ t.arrayLevels, level ∈ c.arrays := by
  simp [missingArrays]

/-- An array type that is recorded is not recorded again. -/
theorem recordArray_of_recorded (h : ∀ level ∈ t.arrayLevels, level ∈ c.arrays) :
    (recordArray S t).run c = ⟨.ok 0, c, []⟩ := by
  rw [recordArray, run_get_bind, missingArrays_eq_nil_iff.mpr h]
  rfl

/-- An action on a class of the catalog, where the descriptor says how it ends. -/
theorem onClass_run {α : Type} {x : Action ClassDescriptor α} {res : Except LayoutError α}
    {log : List Event} (h : c.class? id = some d) (hx : x.run d = ⟨res, d', log⟩) :
    (onClass id x).run c = ⟨res, c.withDescriptor id d', log⟩ := by
  rw [onClass, run_get_bind, h]
  simp only [onPart, hx]
  rfl

section

variable {f : HostField}

/-- A field whose name is taken is not registered again. -/
theorem onClass_addField_of_known (h : c.class? id = some d) (hf : d.hasField f.name = true) :
    (onClass id (ClassDescriptor.addField f)).run c = ⟨.ok false, c, []⟩ := by
  rw [onClass_run h (ClassDescriptor.addField_of_known hf), withDescriptor_self h]

/-- A frozen class refuses a field of a new name. -/
theorem onClass_addField_of_frozen (h : c.class? id = some d) (hf : d.hasField f.name = false)
    (hfrozen : d.frozen = true) :
    (onClass id (ClassDescriptor.addField f)).run c =
      ⟨.error (.classFrozen d.hostName f.name), c, []⟩ := by
  rw [onClass_run h (ClassDescriptor.addField_of_frozen hf hfrozen), withDescriptor_self h]

/-- A class that is not frozen takes a field of a new name. -/
theorem onClass_addField_of_new (h : c.class? id = some d) (hf : d.hasField f.name = false)
    (hopen : d.frozen = false) :
    (onClass id (ClassDescriptor.addField f)).run c =
      ⟨.ok true, c.withDescriptor id { d with fields := d.fields ++ [⟨d.id, f⟩] }, []⟩ :=
  onClass_run h (ClassDescriptor.addField_of_new hf hopen)

end

/-- A field access whose field is registered registers nothing. -/
theorem registerField_of_resolves {access : FieldRef} (h : c.Resolves S.host access) :
    (registerField S access).run c = ⟨.ok false, c, []⟩ := by
  obtain ⟨through, owner, declaration, d, hl, hdecl, hd, hf⟩ := h
  rw [registerField, run_bind_of_ok (classFor_of_known hl), run_get_bind, hdecl]
  dsimp only
  rw [run_bind_of_ok (onClass_addField_of_known hd hf)]
  rfl

/-! ## How requests end -/

/-- How registering an array type ends : it was recorded before, or all its levels are recorded
and the class it mentions is there, or that class is not resolved. -/
inductive RecordsArray (S : Setting) (t : HostType) (c : Catalog) :
    Except LayoutError Nat → Catalog → Prop
  | known (h : ∀ level ∈ t.arrayLevels, level ∈ c.arrays) : RecordsArray S t c (.ok 0) c
  | added {res : Except LayoutError Nat} {c' : Catalog} (harray : t.isArray = true)
    (hd : c.Discovery S (.ofType t) c') (hlevels : ∀ level ∈ t.arrayLevels, level ∈ c'.arrays)
    (hok : (∃ n, res = .ok n) → c'.Contains t)
    (herr : (∃ e, res = .error e) → ¬ t.RefersTo S.host.Resolves) : RecordsArray S t c res c'

theorem RecordsArray.discovery {res : Except LayoutError Nat} (h : RecordsArray S t c res c') :
    c.Discovery S (.ofType t) c' := by
  cases h with
  | known h => exact .refl
  | added _ hd hlevels hok herr => exact hd

theorem RecordsArray.levels {res : Except LayoutError Nat} (h : RecordsArray S t c res c') :
    ∀ level ∈ t.arrayLevels, level ∈ c'.arrays := by
  cases h with
  | known h => exact h
  | added _ hd hlevels hok herr => exact hlevels

theorem RecordsArray.refused {e : LayoutError} (h : RecordsArray S t c (.error e) c') :
    ¬ t.RefersTo S.host.Resolves := by
  cases h with
  | added _ hd hlevels hok herr => exact herr ⟨e, rfl⟩

theorem recordArray_cases (hc : c.WellFormed) :
    (recordArray S t).Ensures c (RecordsArray S t c) := by
  refine .get_bind ?_
  dsimp only
  split
  · next hnone =>
    exact .pure (.known (missingArrays_eq_nil_iff.mp (List.isEmpty_iff.mp hnone)))
  · next hsome =>
    have harray : t.isArray = true := by
      cases t with
      | array e => rfl
      | primitive p => exact absurd rfl hsome
      | named n => exact absurd rfl hsome
    let c₁ : Catalog := { c with arrays := c.arrays ++ c.missingArrays t }
    have hstep : c.Discovery S (.ofType t) c₁ := .single (.addArrays fun _ h => h)
    have hc₁ := hc.reaches hstep.reaches
    have hlevels : ∀ c', c₁.Discovery S (.ofType t) c' →
        ∀ level ∈ t.arrayLevels, level ∈ c'.arrays := fun c' hd level hlevel =>
      hd.reaches.extends.arrays_prefix.subset (mem_arrays_append_missingArrays hlevel)
    refine .tellAll_bind (.modify_bind ?_)
    refine ((bringIn_ensures hc₁ (Scope.ofType_admitsType S t).1).and (bringIn_refused hc₁)).bind
      ?_ ?_
    · rintro ⟨⟩ c' ⟨⟨hd, hclass⟩, -⟩
      exact .pure (.added harray (hstep.trans hd) (hlevels c' hd)
        (fun _ => ⟨hclass rfl, hlevels c' hd⟩) fun ⟨_, he⟩ => nomatch he)
    · rintro e c' ⟨⟨hd, -⟩, hrefused⟩
      exact .added harray (hstep.trans hd) (hlevels c' hd) (fun ⟨_, hn⟩ => nomatch hn)
        fun _ => (hrefused e rfl).2

/-- Why a field access is refused : the host does not resolve the class it goes through, no class
of the chain declares the field, or the class that does is frozen. -/
inductive RefusesField (S : Setting) (access : FieldRef) (c : Catalog) : LayoutError → Prop
  | unresolved {e : LayoutError} (h : ¬ S.host.Resolves access.className) :
    RefusesField S access c e
  | undeclared {id : ClassId} (hl : c.lookup access.className = some id)
    (hdecl : c.declaring? S.host id access.name = none) :
    RefusesField S access c (.unknownField access)
  | frozen {d : ClassDescriptor} {field : String} (hd : d ∈ c.classes)
    (hfrozen : d.frozen = true) : RefusesField S access c (.classFrozen d.hostName field)

/-- How a field access ends, from a catalog in which the class it goes through has been looked
up : it is refused, its field is known, or its field is new. -/
inductive RegistersField (S : Setting) (access : FieldRef) (c : Catalog) :
    Except LayoutError Bool → Catalog → Prop
  | refused {e : LayoutError} (hrun : (registerField S access).run c = ⟨.error e, c, []⟩)
    (hcause : RefusesField S access c e) : RegistersField S access c (.error e) c
  | known (h : c.Resolves S.host access) : RegistersField S access c (.ok false) c
  | added {id owner : ClassId} {declaration : HostField} {res : Except LayoutError Bool}
    {c' : Catalog} (hl : c.lookup access.className = some id)
    (hdecl : c.declaring? S.host id access.name = some (owner, declaration))
    (hd : c.Discovery S (.ofType declaration.type) c') (h : c'.Resolves S.host access)
    (hok : (∃ b, res = .ok b) → c'.Contains declaration.type)
    (herr : (∃ e, res = .error e) → ¬ declaration.type.RefersTo S.host.Resolves) :
    RegistersField S access c res c'

/-- A field that is new brings in its type. -/
theorem bringInField_cases (hc : c.WellFormed) {access : FieldRef}
    (hr : c.Resolves S.host access) :
    (do
      bringIn S t
      let _ ← recordArray S t
      return true : Action Catalog Bool).Ensures c fun res c' =>
        c.Discovery S (.ofType t) c' ∧ c'.Resolves S.host access ∧
          ((∃ b, res = .ok b) → c'.Contains t) ∧
          ((∃ e, res = .error e) → ¬ t.RefersTo S.host.Resolves) := by
  have hkeep : ∀ c', c.Discovery S (.ofType t) c' → c'.Resolves S.host access := fun c' hd =>
    hd.reaches.extends.resolves hc (hc.reaches hd.reaches) hr
  refine ((bringIn_ensures hc (Scope.ofType_admitsType S t).1).and (bringIn_refused hc)).bind
    ?_ ?_
  · rintro ⟨⟩ c₁ ⟨⟨hd₁, hclass⟩, -⟩
    have hc₁ := hc.reaches hd₁.reaches
    refine (recordArray_cases hc₁).bind ?_ ?_
    · intro n c₂ h
      have hd := hd₁.trans h.discovery
      have hext := h.discovery.reaches.extends
      refine .pure ⟨hd, hkeep c₂ hd, fun _ => ⟨fun name hn => ?_, h.levels⟩,
        fun ⟨_, he⟩ => nomatch he⟩
      exact hext.isSome_lookup hc₁ (hc₁.reaches h.discovery.reaches) (hclass rfl name hn)
    · intro e c₂ h
      have hd := hd₁.trans h.discovery
      exact ⟨hd, hkeep c₂ hd, (fun ⟨_, hb⟩ => nomatch hb), fun _ => h.refused⟩
  · rintro e c₁ ⟨⟨hd₁, -⟩, hrefused⟩
    exact ⟨hd₁, hkeep c₁ hd₁, (fun ⟨_, hb⟩ => nomatch hb), fun _ => (hrefused e rfl).2⟩

/-- A field access through a class that is there. -/
theorem registerField_cases_of_lookup (hc : c.WellFormed) {access : FieldRef}
    (hl : c.lookup access.className = some id) :
    (registerField S access).Ensures c (RegistersField S access c) := by
  obtain ⟨q, hq, -⟩ := hc.lookup_eq_some_iff.mp hl
  refine .bind_of_ok (classFor_of_known hl) (.get_bind ?_)
  split
  · next hnone =>
    refine .fail (.refused ?_ (.undeclared hl hnone))
    rw [registerField, run_bind_of_ok (classFor_of_known hl), run_get_bind, hnone]
    rfl
  · next owner declaration hdecl =>
    obtain ⟨d, h, -⟩ := hc.class?_of_declaring? hq hdecl
    cases hf : d.hasField declaration.name with
    | true =>
      refine .bind_of_ok (onClass_addField_of_known h hf) (.pure (.known ?_))
      exact ⟨id, owner, declaration, d, hl, hdecl, h, hf⟩
    | false =>
      cases hfrozen : d.frozen with
      | true =>
        have hrun := onClass_addField_of_frozen h hf hfrozen
        refine .bind_of_error hrun (.refused ?_ (.frozen (mem_classes_of_class? h) hfrozen))
        rw [registerField, run_bind_of_ok (classFor_of_known hl), run_get_bind, hdecl]
        dsimp only
        rw [run_bind_of_error hrun]
        rfl
      | false =>
        refine .bind_of_ok (onClass_addField_of_new h hf hfrozen) ?_
        have hstep : c.Discovery S (.ofType declaration.type) _ :=
          .single (.addField rfl h hf hfrozen)
        have hc₁ := hc.reaches hstep.reaches
        have he := hstep.reaches.extends
        have hr : Catalog.Resolves _ S.host access :=
          ⟨id, owner, declaration, _, he.lookup hc hc₁ hl, (he.declaring?_eq hc hc₁ hq).trans hdecl,
            class?_withDescriptor_self h,
            ClassDescriptor.hasField_iff.mpr ⟨⟨d.id, declaration⟩, by simp, rfl⟩⟩
        refine (bringInField_cases hc₁ hr).mono ?_
        rintro res c' ⟨hd, hr', hok, herr⟩
        exact .added hl hdecl (hstep.trans hd) hr' hok herr

/-- What a field access comes to : its class is added if it has a chain, and the rest is as if the
class had been there, since looking it up again makes no difference. -/
theorem registerField_cases (hc : c.WellFormed) (access : FieldRef) :
    (registerField S access).Ensures c fun res c' =>
      ∃ c₁, c.Discovery S .noTypes c₁ ∧ RegistersField S access c₁ res c' := by
  have hfor : (classFor S access.className).Ensures c _ :=
    classFor_ensures (A := .noTypes) hc fun _ _ _ _ => trivial
  cases hrun : (classFor S access.className).run c with
  | mk res c₁ log =>
    unfold Ensures at hfor
    rw [hrun] at hfor
    obtain ⟨hd₁, hl⟩ := hfor
    cases res with
    | error e =>
      obtain ⟨hsame, hres⟩ := classFor_refused hc (congrArg Outcome.result hrun)
      exact .bind_of_error hsame
        ⟨c, .refl, .refused (run_bind_of_error hsame) (.unresolved hres)⟩
    | ok through =>
      have hc₁ := hc.reaches hd₁.reaches
      have hagain := registerField_cases_of_lookup (S := S) hc₁ hl
      rw [registerField] at hagain ⊢
      refine .bind_of_ok hrun ?_
      unfold Ensures at hagain
      rw [run_bind_of_ok (classFor_of_known hl)] at hagain
      exact ⟨c₁, hd₁, hagain⟩

/-- A field access that fails leaves its field registered, or fails in the same way again. -/
theorem registerField_failed (hc : c.WellFormed) (access : FieldRef) :
    (registerField S access).Ensures c fun res c' => ∀ e, res = .error e →
      c'.Resolves S.host access ∨ (registerField S access).run c' = ⟨.error e, c', []⟩ := by
  refine (registerField_cases hc access).mono ?_
  rintro res c' ⟨c₁, -, h⟩ e rfl
  cases h with
  | refused hrun _ => exact Or.inr hrun
  | added hl hdecl hd h hok herr => exact Or.inl h

end Catalog

end DeviceLayout
