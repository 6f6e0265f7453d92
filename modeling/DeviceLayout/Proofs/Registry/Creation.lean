import DeviceLayout.Proofs.Catalog.Frame
import DeviceLayout.Proofs.Program.Chains
import DeviceLayout.Proofs.Reachability.Failure
import DeviceLayout.Proofs.Registry.Hierarchy

/-!
# Classes are created with what is missing above them

Asking for a class that is registered changes nothing and asks the host nothing. Asking for a new
one goes down the host's chain, root first, and creates what it does not find. As no class stands
twice on a chain (`Host.Coherent.nodup_chain`), what is created on the way never hides what is
still missing : the catalog gets the missing part of the chain at its end and is otherwise
unchanged (`Catalog.ensureChain_appends`).

The two ways agree in any catalog that mirrors its host. There a registered class has a chain, and
nothing of the chain is missing (`Catalog.classFor_appends`); a class without a chain is not
registered, so it is refused (`Catalog.classFor_of_no_chain`). Every registry with a history has
such a catalog, which gives `Registry.createsClass_after`.
-/

open DeviceLayout.Action

namespace DeviceLayout

namespace Catalog

variable {S : Setting} {c : Catalog} {name : String}

/-! ## Going down a chain -/

theorem ensureClass_appends (packing : Packing) (parent : Option ClassId) (name : String) :
    (ensureClass packing parent name).Ensures c fun res c' => (∃ id, res = .ok id) ∧
      c.Appends packing (c.missing [name]) c' ∧
        ∀ {names}, name ∉ names → c'.missing names = c.missing names := by
  unfold Ensures
  cases hl : c.lookup name with
  | some id =>
    rw [ensureClass_of_known hl, missing_of_known (by simp [hl])]
    exact ⟨⟨id, rfl⟩, .refl packing c, fun _ => rfl⟩
  | none =>
    have hmissing : c.missing [name] = [name] := by simp [missing, hl]
    rw [ensureClass_of_new hl, hmissing]
    exact ⟨⟨_, rfl⟩, appends_withClass packing parent name, missing_withClass⟩

/-- Going down a chain creates what is missing of it, and nothing else. -/
theorem ensureChain_appends {packing : Packing} {name : String} :
    ∀ {todo : List String} {parent : Option ClassId} {c : Catalog}, (todo ++ [name]).Nodup →
      (ensureChain packing name parent todo).Ensures c fun _ c' =>
        c.Appends packing (c.missing (todo ++ [name])) c'
  | [], parent, c, _ => (ensureClass_appends packing parent name).mono fun _ _ h => h.2.1
  | a :: todo, parent, c, hnodup => by
    obtain ⟨hfresh, hrest⟩ := List.nodup_cons.mp hnodup
    refine (ensureClass_appends packing parent a).bind_isOk fun id c₁ ⟨happ, hkeep⟩ => ?_
    refine (ensureChain_appends hrest).mono fun _ c' happ' => ?_
    have hmissing : c₁.missing (todo ++ [name]) = c.missing (todo ++ [name]) := hkeep hfresh
    rw [hmissing] at happ'
    exact missing_cons ▸ happ.trans happ'

/-! ## Asking for a class -/

/-- A class with a chain is found, with what was missing of its chain created. -/
theorem classFor_appends (hh : S.host.Coherent) (hk : S.host.KnowsChains) (hm : c.Mirrors S.host)
    (hc : c.WellFormed) {above : List String} (habove : S.host.ancestors name = some above) :
    (classFor S name).Ensures c fun res c' =>
      (∃ id, res = .ok id ∧ c'.lookup name = some id) ∧
        c.Appends S.config.packing (c.missing (above.reverse ++ [name])) c' := by
  cases hl : c.lookup name with
  | some id =>
    obtain ⟨above', habove', hregistered⟩ := hm.chain hc (Option.isSome_of_eq_some hl)
    obtain rfl := Option.some.inj (habove.symm.trans habove')
    have hknown : ∀ n ∈ above.reverse ++ [name], (c.lookup n).isSome := by
      intro n hn
      rcases List.mem_append.mp hn with hn | hn
      · exact hregistered n (List.mem_reverse.mp hn)
      · rw [List.mem_singleton.mp hn, hl, Option.isSome_some]
    unfold Ensures
    rw [classFor_of_known hl, missing_of_known hknown]
    exact ⟨⟨id, rfl, hl⟩, .refl _ c⟩
  | none =>
    refine .get_bind ?_
    rw [hl]
    dsimp only
    rw [if_neg (by simp [hk habove]), habove]
    have hnodup : (above.reverse ++ [name]).Nodup := by
      have := hh.nodup_chain habove
      rwa [← List.nodup_reverse, List.reverse_cons] at this
    have hends : (ensureChain S.config.packing name none above.reverse).Ensures c _ :=
      ensureWholeChain_ensures (A := .all) hc habove fun _ _ => trivial
    refine (hends.and (ensureChain_appends hnodup)).mono ?_
    rintro res c' ⟨⟨-, hid⟩, happ⟩
    exact ⟨hid, happ⟩

/-- A class without a chain is refused, and nothing is changed. -/
theorem classFor_of_no_chain (hm : c.Mirrors S.host) (hc : c.WellFormed)
    (hnone : S.host.ancestors name = none) :
    (classFor S name).run c = ⟨.error (S.host.refusal name), c, []⟩ := by
  cases hl : c.lookup name with
  | some id =>
    obtain ⟨above, habove, -⟩ := hm.chain hc (Option.isSome_of_eq_some hl)
    cases hnone.symm.trans habove
  | none =>
    rw [classFor, run_get_bind, hl, hnone, Host.refusal]
    cases S.host.contains name <;> rfl

end Catalog

/-! ## Registries with a history -/

/-- A class without a chain is unknown if it is not declared, and unresolved if it is. -/
theorem Program.refusal_eq_unknownClass_iff {P : Program} {name : String} :
    P.host.refusal name = .unknownClass name ↔ P.class? name = none := by
  cases h : P.class? name <;> simp [Host.refusal, Program.host, h]

theorem Program.refusal_eq_unresolvedAncestor_iff {P : Program} {name : String} :
    P.host.refusal name = .unresolvedAncestor name ↔
      ∃ declared, P.class? name = some declared := by
  cases h : P.class? name <;> simp [Host.refusal, Program.host, h]

namespace Registry

/-- What asking a registry for a class does, when the host is a program. -/
structure CreatesClass (P : Program) (config : LayoutConfig) (r : Registry) (name : String)
    (o : Outcome Registry ClassId) : Prop where
  ok_iff : (∃ id, o.result = .ok id) ↔ ∃ above, P.ancestors name = some above
  unknown_iff : o.result = .error (.unknownClass name) ↔ P.class? name = none
  unresolved_iff : o.result = .error (.unresolvedAncestor name) ↔
    (∃ declared, P.class? name = some declared) ∧ (P.Dangles name ∨ P.Cycles name)
  /-- A refusal leaves the registry as it was. -/
  unchanged : ∀ e, o.result = .error e → o.state = r
  /-- What is missing of the chain comes to the end of the catalog, root first, and nothing else
  changes. -/
  appends : ∀ id, o.result = .ok id → ∃ above c', P.ancestors name = some above ∧
    o.state = { r with catalog := c' } ∧
    r.catalog.Appends config.packing (r.catalog.missing (above.reverse ++ [name])) c'
  /-- The new classes, too, have their index for an id, and stand below their declared parents. -/
  ids : ∀ id d, o.state.catalog.class? id = some d → d.id = id
  follows : o.state.catalog.Follows P
  /-- The id is what the name is looked up as from then on. -/
  id_stays : ∀ id, o.result = .ok id → ∀ requests,
    (afterFrom ⟨P.host, config⟩ o.state requests).catalog.lookup name = some id

section

variable {P : Program} {config : LayoutConfig} {r : Registry} {name : String}
  {o : Outcome Registry ClassId} (hr : o.state.WellFormed ⟨P.host, config⟩)
  (hfollows : o.state.catalog.Follows P)

include hr hfollows

theorem CreatesClass.of_no_chain (hnone : P.ancestors name = none)
    (hresult : o.result = .error (P.host.refusal name)) (hstate : o.state = r) :
    CreatesClass P config r name o where
  ok_iff := by simp [hresult, hnone]
  unknown_iff := by rw [hresult, Except.error.injEq, Program.refusal_eq_unknownClass_iff]
  unresolved_iff := by
    rw [hresult, Except.error.injEq, Program.refusal_eq_unresolvedAncestor_iff,
      and_iff_left (Program.ancestors_eq_none_iff.mp hnone)]
  unchanged _ _ := hstate
  appends id hid := nomatch hresult.symm.trans hid
  ids _ _ h := hr.catalog.id_eq h
  follows := hfollows
  id_stays id hid := nomatch hresult.symm.trans hid

theorem CreatesClass.of_chain {above : List String} {id : ClassId} {c' : Catalog}
    (habove : P.ancestors name = some above) (hresult : o.result = .ok id)
    (hstate : o.state = { r with catalog := c' })
    (happ : r.catalog.Appends config.packing (r.catalog.missing (above.reverse ++ [name])) c')
    (hl : o.state.catalog.lookup name = some id) : CreatesClass P config r name o := by
  obtain ⟨declared, hdecl, -⟩ := Program.class?_of_ancestors habove
  have hrooted : ¬ (P.Dangles name ∨ P.Cycles name) := by
    rw [← Program.ancestors_eq_none_iff, habove]
    exact Option.some_ne_none above
  exact
    { ok_iff := by simp [hresult, habove]
      unknown_iff := by simp [hresult, hdecl]
      unresolved_iff := by simp [hresult, hrooted]
      unchanged := fun e he => nomatch hresult.symm.trans he
      appends := fun _ _ => ⟨above, c', habove, hstate, happ⟩
      ids := fun _ _ h => hr.catalog.id_eq h
      follows := hfollows
      id_stays := fun id' hid' requests => by
        obtain rfl := Except.ok.inj (hresult.symm.trans hid')
        obtain ⟨hafter, hext⟩ := hr.extends_afterFrom requests
        exact hext.catalog.lookup hr.catalog hafter.catalog hl }

end

/-- Class creation is atomic and creates exactly what is missing of the chain. -/
theorem createsClass_after (P : Program) (config : LayoutConfig) (history : List Request)
    (name : String) :
    CreatesClass P config (after ⟨P.host, config⟩ history) name
      ((onCatalog (Catalog.classFor ⟨P.host, config⟩ name)).run
        (after ⟨P.host, config⟩ history)) := by
  let S : Setting := ⟨P.host, config⟩
  let r := after S history
  have hr : r.WellFormed S := wellFormed_after S history
  have hm : r.catalog.Mirrors S.host := mirrors_after P.host_coherent history
  let o := (onCatalog (Catalog.classFor S name)).run r
  have hdisc := (Catalog.classFor_ensures hr.catalog (Scope.all_admitsClass S name)).1
  have hr' : o.state.WellFormed S := (hr.reaches (reaches_of_catalog hdisc.reaches)).1
  have hfollows : o.state.catalog.Follows P :=
    (hm.discovery P.host_coherent hr.catalog hdisc).follows hr'.catalog
  cases habove : P.ancestors name with
  | none =>
    have hrun := Catalog.classFor_of_no_chain hm hr.catalog habove
    exact .of_no_chain hr' hfollows habove (congrArg Outcome.result hrun)
      (congrArg (fun o => { r with catalog := o.state }) hrun)
  | some above =>
    obtain ⟨⟨id, hid, hl⟩, happ⟩ :=
      Catalog.classFor_appends P.host_coherent P.host_knowsChains hm hr.catalog habove
    exact .of_chain hr' hfollows habove hid rfl happ hl

end Registry

end DeviceLayout
