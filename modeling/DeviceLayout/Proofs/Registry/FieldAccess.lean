import DeviceLayout.Proofs.Registry.Creation

/-!
# What a field access changes

A field access first brings in the class it goes through, with what is missing of its chain. From
there on it depends on the nearest class `C` that declares the field, and on what is registered of
`C` : the field may be there, or `C` may be frozen without it, or the field is added to `C` and its
type is brought in. What is created on the way is blank, so all of this can be read off the catalog
as it was before (`Appends.classNamed?_cases`).

What the access leaves alone is a frame (`Catalog.Frame`) : classes may be added, and the fields of
`C` may grow, but nothing else of any class is different. Each part of the access keeps to a frame,
and frames compose. Both together are `Registry.accessesField_after`.
-/

open DeviceLayout.Action

namespace DeviceLayout

/-- A refusal says of the class that it is unknown, or that its chain is not resolved. -/
theorem Host.refusal_cases (host : Host) (name : String) :
    host.refusal name = .unknownClass name ∨ host.refusal name = .unresolvedAncestor name :=
  (ite_eq_or_eq ..).symm

/-- An access that means a field has a class of its chain that declares the field. -/
theorem Host.Means.not_undeclared {host : Host} {access : FieldRef} {C : String}
    {declaration : HostField} (h : host.Means access C declaration) :
    ¬ ∃ above, host.ancestors access.className = some above ∧
      ∀ C ∈ access.className :: above, host.declaredField C access.name = none := by
  rintro ⟨above, habove, hnone⟩
  cases ((nearest?_eq_none_iff habove).mpr hnone).symm.trans h.1

/-- An access of which no class of the chain is the nearest means no field. -/
theorem Host.not_means {host : Host} {access : FieldRef} (hnear : host.nearest? access = none)
    {C : String} {declaration : HostField} : ¬ host.Means access C declaration :=
  fun h => nomatch hnear.symm.trans h.1

namespace Catalog

variable {S : Setting} {c : Catalog} {d : ClassDescriptor}

/-! ## Bringing in a type -/

section

variable (hh : S.host.Coherent) (hk : S.host.KnowsChains) (hm : c.Mirrors S.host)
  (hc : c.WellFormed)

include hh hk hm hc

/-- Bringing in a type fails only if the class it mentions has no chain. -/
theorem bringIn_frame (t : HostType) :
    (bringIn S t).Ensures c fun res c' => c.Frame S.config.packing none c' ∧
      ∀ e, res = .error e → S.host.RefusesType t e := by
  unfold bringIn
  split
  · refine .pure ⟨.refl _ none c, fun e he => ?_⟩
    cases he
  · next name hname =>
    cases habove : S.host.ancestors name with
    | none =>
      refine .bind_of_error (classFor_of_no_chain hm hc habove) ⟨.refl _ none c, fun e he => ?_⟩
      exact ⟨name, hname, habove, (Except.error.inj he).symm⟩
    | some above =>
      refine (classFor_appends hh hk hm hc habove).bind ?_ ?_
      · refine fun id c' h => .pure ⟨h.2.frame none, fun e he => ?_⟩
        cases he
      · rintro e c' ⟨⟨id, hid, -⟩, -⟩
        cases hid

theorem recordArray_frame (t : HostType) :
    (recordArray S t).Ensures c fun res c' => c.Frame S.config.packing none c' ∧
      ∀ e, res = .error e → S.host.RefusesType t e := by
  refine .get_bind ?_
  dsimp only
  split
  · exact .pure ⟨.refl _ none c, fun _ he => nomatch he⟩
  · have hstep : c.Discovers S .all { c with arrays := c.arrays ++ c.missingArrays t } :=
      .addArrays fun _ _ => trivial
    have hframe := frame_arrays S.config.packing none (c.missingArrays t) (c := c)
    refine .tellAll_bind (.modify_bind ?_)
    refine (bringIn_frame hh hk (hm.discovers hh hc hstep) (hc.change hstep.change) t).bind ?_ ?_
    · exact fun _ c' h => .pure ⟨hframe.trans h.1, fun _ he => nomatch he⟩
    · exact fun e c' h => ⟨hframe.trans h.1, fun e' he => Except.error.inj he ▸ h.2 e rfl⟩

/-- The type of a new field is brought in if the class it mentions has a chain, and refused if it
has none. -/
theorem bringInField_frame (t : HostType) :
    (do
      bringIn S t
      let _ ← recordArray S t
      return true : Action Catalog Bool).Ensures c fun res c' => c.Frame S.config.packing none c' ∧
        (res = .ok true ∧ (t.RefersTo fun name => ∃ above, S.host.ancestors name = some above) ∨
          ∃ e, res = .error e ∧ S.host.RefusesType t e) := by
  have hbring := bringIn_ensures (A := .all) (t := t) hc fun name _ =>
    Scope.all_admitsClass S name
  refine ((bringIn_frame hh hk hm hc t).and hbring).bind ?_ ?_
  · rintro ⟨⟩ c₁ ⟨⟨hframe, -⟩, hd, hclass⟩
    have hc₁ := hc.reaches hd.reaches
    have hm₁ := hm.discovery hh hc hd
    have hresolves : t.RefersTo fun name => ∃ above, S.host.ancestors name = some above := by
      intro name hname
      obtain ⟨above, habove, -⟩ := hm₁.chain hc₁ (hclass rfl name hname)
      exact ⟨above, habove⟩
    refine (recordArray_frame hh hk hm₁ hc₁ t).bind ?_ ?_
    · exact fun _ c' h => .pure ⟨hframe.trans h.1, Or.inl ⟨rfl, hresolves⟩⟩
    · rintro e c' ⟨-, hrefused⟩
      obtain ⟨name, hname, hnone, -⟩ := hrefused e rfl
      obtain ⟨above, habove⟩ := hresolves name hname
      cases hnone.symm.trans habove
  · exact fun e c' h => ⟨h.1.1, Or.inr ⟨e, rfl, h.1.2 e rfl⟩⟩

/-! ## Access through a registered class -/

variable {access : FieldRef} {through : ClassId} (hl : c.lookup access.className = some through)

include hl

omit hk in
theorem registerField_of_undeclared (hnear : S.host.nearest? access = none) :
    (registerField S access).run c = ⟨.error (.unknownField access), c, []⟩ := by
  have hnone : c.declaring? S.host through access.name = none := by
    cases hdecl : c.declaring? S.host through access.name with
    | none => rfl
    | some found =>
      obtain ⟨C, hC, -⟩ := (hm.declaring?_iff hh hc hl).mp hdecl
      cases hnear.symm.trans hC
  rw [registerField, run_bind_of_ok (classFor_of_known hl), run_get_bind, hnone]
  rfl

variable {C : String} {declaration : HostField} (hmeans : S.host.Means access C declaration)
  (hd : c.classNamed? C = some d)

include hmeans hd

omit hk in
/-- The search along the catalog ends at the class that the access means. -/
theorem declaring?_of_means : ∃ owner, c.class? owner = some d ∧
    c.declaring? S.host through access.name = some (owner, declaration) := by
  obtain ⟨owner, hown, h⟩ := Option.bind_eq_some_iff.mp hd
  exact ⟨owner, h, (hm.declaring?_iff hh hc hl).mpr ⟨C, hmeans.1, hown, hmeans.2⟩⟩

omit hk in
theorem registerField_of_known (hf : d.hasField access.name = true) :
    (registerField S access).run c = ⟨.ok false, c, []⟩ := by
  obtain ⟨owner, h, hdecl⟩ := declaring?_of_means hh hm hc hl hmeans hd
  have hname := hh.name_eq hmeans.2
  exact registerField_of_resolves ⟨through, owner, declaration, d, hl, hdecl, h, hname ▸ hf⟩

omit hk in
theorem registerField_of_frozen (hf : d.hasField access.name = false) (hfrozen : d.frozen = true) :
    (registerField S access).run c = ⟨.error (.classFrozen C access.name), c, []⟩ := by
  obtain ⟨owner, h, hdecl⟩ := declaring?_of_means hh hm hc hl hmeans hd
  have hname := hh.name_eq hmeans.2
  have hC := hc.hostName_of_classNamed? hd
  have hrun := onClass_addField_of_frozen (f := declaration) h (hname ▸ hf) hfrozen
  rw [registerField, run_bind_of_ok (classFor_of_known hl), run_get_bind, hdecl]
  dsimp only
  rw [run_bind_of_error hrun, hC, hname]
  rfl

/-- A class that is open and has no such field takes it, before its type is brought in. -/
theorem registerField_of_open (hf : d.hasField access.name = false) (hopen : d.frozen = false) :
    (registerField S access).Ensures c fun res c' => c.Frame S.config.packing (some C) c' ∧
      (∃ owner d', c'.class? owner = some d' ∧ d'.hostName = C ∧
        d'.fields = d.fields ++ [⟨owner, declaration⟩]) ∧
      (res = .ok true ∧
          (declaration.type.RefersTo fun name => ∃ above, S.host.ancestors name = some above) ∨
        ∃ e, res = .error e ∧ S.host.RefusesType declaration.type e) := by
  obtain ⟨owner, h, hdecl⟩ := declaring?_of_means hh hm hc hl hmeans hd
  have hname := hh.name_eq hmeans.2
  have hC := hc.hostName_of_classNamed? hd
  have hstep : c.Discovers S .all _ := .addField trivial h (hname ▸ hf) hopen
  refine .bind_of_ok (classFor_of_known hl) (.get_bind ?_)
  rw [hdecl]
  refine .bind_of_ok (onClass_addField_of_new h (hname ▸ hf) hopen) ?_
  have hc₁ := hc.change hstep.change
  refine (bringInField_frame hh hk (hm.discovers hh hc hstep) hc₁ declaration.type).mono ?_
  rintro res c' ⟨hframe, hres⟩
  refine ⟨?_, ⟨owner, _, hframe.class?_eq (class?_withDescriptor_self h), hC, ?_⟩, hres⟩
  · exact (frame_withFields _ h hC _).trans (hframe.weaken _)
  · rw [hc.id_eq h]

end

/-- An access through a class without a chain changes nothing. -/
theorem registerField_of_no_chain (hm : c.Mirrors S.host) (hc : c.WellFormed) {access : FieldRef}
    (hnone : S.host.ancestors access.className = none) :
    (registerField S access).run c = ⟨.error (S.host.refusal access.className), c, []⟩ :=
  run_bind_of_error (classFor_of_no_chain hm hc hnone)

/-- The class that an access through a registered class means is registered. -/
theorem classNamed?_of_means {host : Host} (hm : c.Mirrors host) (hc : c.WellFormed)
    {access : FieldRef} {through : ClassId} (hl : c.lookup access.className = some through)
    {C : String} {declaration : HostField} (hmeans : host.Means access C declaration) :
    ∃ d, c.classNamed? C = some d := by
  obtain ⟨owner, hown⟩ := Option.isSome_iff_exists.mp
    (hm.isSome_lookup_of_nearest? hc (Option.isSome_of_eq_some hl) hmeans.1)
  obtain ⟨d, hd, hname⟩ := hc.lookup_eq_some_iff.mp hown
  exact ⟨d, hc.classNamed?_eq_some_iff.mpr ⟨owner, hd, hname⟩⟩

/-- An access goes on, once its class is there, as if the class had been there before. -/
theorem registerField_past_chain (hh : S.host.Coherent) (hk : S.host.KnowsChains)
    (hm : c.Mirrors S.host) (hc : c.WellFormed) {access : FieldRef} {above : List String}
    (habove : S.host.ancestors access.className = some above) :
    ∃ c₁ through, c₁.WellFormed ∧ c₁.Mirrors S.host ∧
      c₁.lookup access.className = some through ∧
      c.Appends S.config.packing (c.missing (above.reverse ++ [access.className])) c₁ ∧
      ∀ Q, (registerField S access).Ensures c₁ Q → (registerField S access).Ensures c Q := by
  have hdisc := (classFor_ensures hc (Scope.all_admitsClass S access.className)).1
  have happ := classFor_appends hh hk hm hc habove
  cases hrun : (classFor S access.className).run c with
  | mk res c₁ log =>
    unfold Ensures at happ
    rw [hrun] at hdisc happ
    obtain ⟨⟨through, rfl, hl⟩, happ⟩ := happ
    refine ⟨c₁, through, hc.reaches hdisc.reaches, hm.discovery hh hc hdisc, hl, happ, ?_⟩
    intro Q h
    rw [registerField] at h ⊢
    refine .bind_of_ok hrun ?_
    unfold Ensures at h
    rwa [run_bind_of_ok (classFor_of_known hl)] at h

end Catalog

/-! ## Registries with a history -/

namespace Registry

/-- What a field access does to a registry, when the host is a program. -/
structure AccessesField (P : Program) (config : LayoutConfig) (r : Registry) (access : FieldRef)
    (o : Outcome Registry Bool) : Prop where
  /-- The class that the access goes through is refused exactly if it has no chain. -/
  refused_iff : (o.result = .error (.unknownClass access.className) ∨
    o.result = .error (.unresolvedAncestor access.className)) ↔
      P.ancestors access.className = none
  refused_unchanged : P.ancestors access.className = none → o.state = r
  /-- The field is unknown exactly if no class of the chain declares it. -/
  undeclared_iff : o.result = .error (.unknownField access) ↔
    ∃ above, P.ancestors access.className = some above ∧
      ∀ C ∈ access.className :: above, P.host.declaredField C access.name = none
  /-- A field that the class has is not registered again, whether the class is frozen or not. -/
  known : ∀ C declaration d, P.host.Means access C declaration →
    r.catalog.classNamed? C = some d → d.hasField access.name = true → o.result = .ok false
  /-- A frozen class takes no other field. -/
  frozen : ∀ C declaration d, P.host.Means access C declaration →
    r.catalog.classNamed? C = some d → d.hasField access.name = false → d.frozen = true →
      o.result = .error (.classFrozen C access.name)
  /-- A class that is new or open gets its own declaration of the field. -/
  added : ∀ C declaration, P.host.Means access C declaration →
    (∀ d, r.catalog.classNamed? C = some d → d.hasField access.name = false ∧ d.frozen = false) →
      ∃ owner d', o.state.catalog.class? owner = some d' ∧ d'.hostName = C ∧
        d'.fields = r.catalog.fieldsOf C ++ [⟨owner, declaration⟩]
  /-- The answer then says whether the type of the field could be brought in. -/
  answer : ∀ C declaration, P.host.Means access C declaration →
    (∀ d, r.catalog.classNamed? C = some d → d.hasField access.name = false ∧ d.frozen = false) →
      ((declaration.type.RefersTo fun name => ∃ above, P.ancestors name = some above) →
        o.result = .ok true) ∧
      ∀ name, declaration.type.referencedClass? = some name → P.ancestors name = none →
        o.result = .error (P.host.refusal name)
  /-- Where nothing is registered, the chain is completed and that is all. -/
  only_chain : (o.result = .error (.unknownField access) ∨ o.result = .ok false ∨
      ∃ C field, o.result = .error (.classFrozen C field)) →
    ∃ above c', P.ancestors access.className = some above ∧ o.state = { r with catalog := c' } ∧
      r.catalog.Appends config.packing
        (r.catalog.missing (above.reverse ++ [access.className])) c'
  /-- In any case only the class that the access means has other fields. -/
  frame : r.catalog.Frame config.packing (P.host.nearest? access) o.state.catalog
  layouts_eq : o.state.layouts = r.layouts
  walked_eq : o.state.walked = r.walked

/-! ### One case after another -/

variable {P : Program} {config : LayoutConfig} {r : Registry} {access : FieldRef}
  {o : Outcome Registry Bool} {c' : Catalog} {above : List String} {C : String}
  {declaration : HostField} {d : ClassDescriptor}

theorem AccessesField.of_no_chain (hnone : P.ancestors access.className = none)
    (hresult : o.result = .error (P.host.refusal access.className)) (hstate : o.state = r) :
    AccessesField P config r access o := by
  have hnear : P.host.nearest? access = none := by
    rw [Host.nearest?, show P.host.ancestors access.className = none from hnone, Option.bind_none]
  have hcause := P.host.refusal_cases access.className
  have hother : ¬ (o.result = .error (.unknownField access) ∨ o.result = .ok false ∨
      ∃ C field, o.result = .error (.classFrozen C field)) := by
    rcases hcause with h | h <;> simp [hresult, h]
  exact
    { refused_iff := iff_of_true
        (by rw [hresult]; exact hcause.imp (congrArg _) (congrArg _)) hnone
      refused_unchanged := fun _ => hstate
      undeclared_iff := iff_of_false (fun h => hother (Or.inl h)) (by simp [hnone])
      known := fun _ _ _ h => absurd h (Host.not_means hnear)
      frozen := fun _ _ _ h => absurd h (Host.not_means hnear)
      added := fun _ _ h => absurd h (Host.not_means hnear)
      answer := fun _ _ h => absurd h (Host.not_means hnear)
      only_chain := fun h => absurd h hother
      frame := by rw [hstate]; exact .refl ..
      layouts_eq := by rw [hstate]
      walked_eq := by rw [hstate] }

section

variable (habove : P.ancestors access.className = some above)
  (happ : r.catalog.Appends config.packing
    (r.catalog.missing (above.reverse ++ [access.className])) c')
  (hstate : o.state = { r with catalog := c' })

include habove happ hstate

theorem AccessesField.of_undeclared (hnear : P.host.nearest? access = none)
    (hresult : o.result = .error (.unknownField access)) : AccessesField P config r access o := by
  exact
    { refused_iff := by simp [hresult, habove]
      refused_unchanged := fun h => nomatch habove.symm.trans h
      undeclared_iff := iff_of_true hresult
        ⟨above, habove, (Host.nearest?_eq_none_iff habove).mp hnear⟩
      known := fun _ _ _ h => absurd h (Host.not_means hnear)
      frozen := fun _ _ _ h => absurd h (Host.not_means hnear)
      added := fun _ _ h => absurd h (Host.not_means hnear)
      answer := fun _ _ h => absurd h (Host.not_means hnear)
      only_chain := fun _ => ⟨above, c', habove, hstate, happ⟩
      frame := by rw [hstate]; exact happ.frame _
      layouts_eq := by rw [hstate]
      walked_eq := by rw [hstate] }

theorem AccessesField.of_registered (hmeans : P.host.Means access C declaration)
    (hd : r.catalog.classNamed? C = some d)
    (hclosed : d.hasField access.name = true ∨ d.frozen = true)
    (hresult : o.result =
      if d.hasField access.name then .ok false else .error (.classFrozen C access.name)) :
    AccessesField P config r access o := by
  have hopen : ¬ (d.hasField access.name = false ∧ d.frozen = false) := by
    rcases hclosed with h | h <;> simp [h]
  have hcases : o.result = .ok false ∨ o.result = .error (.classFrozen C access.name) := by
    rw [hresult]
    exact ite_eq_or_eq ..
  exact
    { refused_iff := by rcases hcases with h | h <;> simp [h, habove]
      refused_unchanged := fun h => nomatch habove.symm.trans h
      undeclared_iff :=
        iff_of_false (by rcases hcases with h | h <;> simp [h]) hmeans.not_undeclared
      known := fun C' _ d' hmeans' hd' hf => by
        obtain ⟨rfl, -⟩ := hmeans.unique hmeans'
        obtain rfl := Option.some.inj (hd.symm.trans hd')
        rw [hresult, if_pos hf]
      frozen := fun C' _ d' hmeans' hd' hf _ => by
        obtain ⟨rfl, -⟩ := hmeans.unique hmeans'
        obtain rfl := Option.some.inj (hd.symm.trans hd')
        rw [hresult, if_neg (by simp [hf])]
      added := fun C' _ hmeans' hopen' => by
        obtain ⟨rfl, -⟩ := hmeans.unique hmeans'
        exact absurd (hopen' d hd) hopen
      answer := fun C' _ hmeans' hopen' => by
        obtain ⟨rfl, -⟩ := hmeans.unique hmeans'
        exact absurd (hopen' d hd) hopen
      only_chain := fun _ => ⟨above, c', habove, hstate, happ⟩
      frame := by rw [hstate]; exact happ.frame _
      layouts_eq := by rw [hstate]
      walked_eq := by rw [hstate] }

omit happ in
/-- An access to a field that the class declaring it does not have yet. It fails only for the class
that the type mentions, which has no chain and so is not the one that is accessed through. -/
theorem AccessesField.of_open (hmeans : P.host.Means access C declaration)
    (hopen : ∀ d, r.catalog.classNamed? C = some d →
      d.hasField access.name = false ∧ d.frozen = false)
    (hframe : r.catalog.Frame config.packing (some C) c')
    (hadded : ∃ owner d', c'.class? owner = some d' ∧ d'.hostName = C ∧
      d'.fields = r.catalog.fieldsOf C ++ [⟨owner, declaration⟩])
    (hresult : (o.result = .ok true ∧
        declaration.type.RefersTo fun name => ∃ above, P.ancestors name = some above) ∨
      ∃ e, o.result = .error e ∧ P.host.RefusesType declaration.type e) :
    AccessesField P config r access o := by
  have herror : ∀ {e}, o.result = .error e → ∃ name, name ≠ access.className ∧
      (e = .unknownClass name ∨ e = .unresolvedAncestor name) := by
    intro e he
    rcases hresult with ⟨hok, -⟩ | ⟨e', he', name, -, hnone, hrefusal⟩
    · cases he.symm.trans hok
    · obtain rfl := Except.error.inj (he.symm.trans he')
      refine ⟨name, ?_, hrefusal ▸ P.host.refusal_cases name⟩
      rintro rfl
      cases habove.symm.trans hnone
  have hother : ¬ (o.result = .error (.unknownField access) ∨ o.result = .ok false ∨
      ∃ C field, o.result = .error (.classFrozen C field)) := by
    rintro (h | h | ⟨C, field, h⟩)
    · obtain ⟨name, -, he | he⟩ := herror h <;> cases he
    · rcases hresult with ⟨hok, -⟩ | ⟨e, he, -⟩
      · cases h.symm.trans hok
      · cases h.symm.trans he
    · obtain ⟨name, -, he | he⟩ := herror h <;> cases he
  exact
    { refused_iff := by
        refine iff_of_false ?_ (by simp [habove])
        rintro (h | h)
        · obtain ⟨name, hne, he | he⟩ := herror h <;> cases he
          exact hne rfl
        · obtain ⟨name, hne, he | he⟩ := herror h <;> cases he
          exact hne rfl
      refused_unchanged := fun h => nomatch habove.symm.trans h
      undeclared_iff := iff_of_false (fun h => hother (Or.inl h)) hmeans.not_undeclared
      known := fun C' _ d hmeans' hd hf => by
        obtain ⟨rfl, -⟩ := hmeans.unique hmeans'
        cases hf.symm.trans (hopen d hd).1
      frozen := fun C' _ d hmeans' hd _ hfrozen => by
        obtain ⟨rfl, -⟩ := hmeans.unique hmeans'
        cases hfrozen.symm.trans (hopen d hd).2
      added := fun C' _ hmeans' _ => by
        obtain ⟨rfl, rfl⟩ := hmeans.unique hmeans'
        rw [hstate]
        exact hadded
      answer := fun C' _ hmeans' _ => by
        obtain ⟨rfl, rfl⟩ := hmeans.unique hmeans'
        rcases hresult with ⟨hok, hresolves⟩ | ⟨e, he, name, hname, hnone, rfl⟩
        · refine ⟨fun _ => hok, fun name hname hnone => ?_⟩
          obtain ⟨above', habove'⟩ := hresolves name hname
          cases hnone.symm.trans habove'
        · refine ⟨fun hresolves => ?_, fun name' hname' _ => ?_⟩
          · obtain ⟨above', habove'⟩ := hresolves name hname
            cases (show P.ancestors name = none from hnone).symm.trans habove'
          · rw [he, Option.some.inj (hname'.symm.trans hname)]
      only_chain := fun h => absurd h hother
      frame := by rw [hstate, hmeans.1]; exact hframe
      layouts_eq := by rw [hstate]
      walked_eq := by rw [hstate] }

end

/-! ### All cases -/

/-- What an action on the catalog ends with is known if it is known from where it gets to. -/
theorem onCatalog_ends {α : Type} {x : Action Catalog α} {c₁ : Catalog}
    {res : Except LayoutError α} {log : List Event}
    (hpast : ∀ Q, x.Ensures c₁ Q → x.Ensures r.catalog Q) (h : x.run c₁ = ⟨res, c₁, log⟩) :
    ((onCatalog x).run r).result = res ∧
      ((onCatalog x).run r).state = { r with catalog := c₁ } := by
  have hrun : x.Ensures c₁ fun res' c' => res' = res ∧ c' = c₁ := by
    unfold Ensures
    rw [h]
    exact ⟨rfl, rfl⟩
  obtain ⟨hresult, hstate⟩ := hpast _ hrun
  exact ⟨hresult, congrArg (fun c => { r with catalog := c }) hstate⟩

/-- An access that means a field, once the chain is there : the class has the field, or is frozen
without it, or takes it. -/
theorem accessesField_of_means {c₁ : Catalog} {through : ClassId} (hc : r.catalog.WellFormed)
    (hc₁ : c₁.WellFormed) (hm₁ : c₁.Mirrors P.host)
    (hl : c₁.lookup access.className = some through)
    (habove : P.ancestors access.className = some above)
    (happ : r.catalog.Appends config.packing
      (r.catalog.missing (above.reverse ++ [access.className])) c₁)
    (hpast : ∀ Q, (Catalog.registerField ⟨P.host, config⟩ access).Ensures c₁ Q →
      (Catalog.registerField ⟨P.host, config⟩ access).Ensures r.catalog Q)
    (hmeans : P.host.Means access C declaration) :
    AccessesField P config r access
      ((onCatalog (Catalog.registerField ⟨P.host, config⟩ access)).run r) := by
  have hh := P.host_coherent
  have hk : P.host.KnowsChains := P.host_knowsChains
  obtain ⟨d, hd⟩ := Catalog.classNamed?_of_means hm₁ hc₁ hl hmeans
  have hbefore := happ.classNamed?_cases hc hc₁ hd
  cases hf : d.hasField access.name with
  | true =>
    obtain ⟨hresult, hstate⟩ :=
      onCatalog_ends hpast (Catalog.registerField_of_known hh hm₁ hc₁ hl hmeans hd hf)
    rcases hbefore with hold | ⟨-, hblank⟩
    · exact .of_registered habove happ hstate hmeans hold (Or.inl hf) (by rw [hresult, if_pos hf])
    · cases hf.symm.trans (hblank.hasField_eq _)
  | false =>
    cases hfrozen : d.frozen with
    | true =>
      obtain ⟨hresult, hstate⟩ :=
        onCatalog_ends hpast (Catalog.registerField_of_frozen hh hm₁ hc₁ hl hmeans hd hf hfrozen)
      rcases hbefore with hold | ⟨-, hblank⟩
      · exact .of_registered habove happ hstate hmeans hold (Or.inr hfrozen)
          (by rw [hresult, if_neg (by simp [hf])])
      · cases hfrozen.symm.trans hblank.frozen_eq
    | false =>
      obtain ⟨hframe, hadded, hresult⟩ :=
        hpast _ (Catalog.registerField_of_open hh hk hm₁ hc₁ hl hmeans hd hf hfrozen)
      have hfields : d.fields = r.catalog.fieldsOf C := by
        rcases hbefore with hold | ⟨hnone, hblank⟩
        · rw [Catalog.fieldsOf, hold]
          rfl
        · rw [Catalog.fieldsOf, hnone, hblank.fields_eq]
          rfl
      refine .of_open habove rfl hmeans (fun d' hd' => ?_) ((happ.frame _).trans hframe)
        (hfields ▸ hadded) hresult
      rcases hbefore with hold | ⟨hnone, -⟩
      · obtain rfl := Option.some.inj (hold.symm.trans hd')
        exact ⟨hf, hfrozen⟩
      · cases hnone.symm.trans hd'

/-- What a field access does to a registry with a history : the cases exclude each other, one of
them applies, and in each of them the answer and the changes are as said. -/
theorem accessesField_after (P : Program) (config : LayoutConfig) (history : List Request)
    (access : FieldRef) :
    AccessesField P config (after ⟨P.host, config⟩ history) access
      ((onCatalog (Catalog.registerField ⟨P.host, config⟩ access)).run
        (after ⟨P.host, config⟩ history)) := by
  let r := after ⟨P.host, config⟩ history
  have hc : r.catalog.WellFormed := (wellFormed_after ⟨P.host, config⟩ history).catalog
  have hm : r.catalog.Mirrors P.host := mirrors_after P.host_coherent history
  cases habove : P.ancestors access.className with
  | none =>
    have h := Catalog.registerField_of_no_chain (S := ⟨P.host, config⟩) hm hc habove
    exact .of_no_chain habove (congrArg Outcome.result h)
      (congrArg (fun o => { r with catalog := o.state }) h)
  | some above =>
    obtain ⟨c₁, through, hc₁, hm₁, hl, happ, hpast⟩ := Catalog.registerField_past_chain
      (S := ⟨P.host, config⟩) P.host_coherent P.host_knowsChains hm hc habove
    cases hnear : P.host.nearest? access with
    | none =>
      obtain ⟨hresult, hstate⟩ := onCatalog_ends hpast
        (Catalog.registerField_of_undeclared P.host_coherent hm₁ hc₁ hl hnear)
      exact .of_undeclared habove happ hstate hnear hresult
    | some C =>
      obtain ⟨declaration, hmeans⟩ := Host.exists_means hnear
      exact accessesField_of_means hc hc₁ hm₁ hl habove happ hpast hmeans

end Registry

end DeviceLayout
