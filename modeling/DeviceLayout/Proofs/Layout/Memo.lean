import DeviceLayout.Proofs.History

/-!
# Keeping layouts goes unnoticed

In every registry with a history, a request for a layout answers what a fresh computation over
the classes as they stand answers (`Registry.layoutOf_transparent`), whatever was requested,
classified or refused before. It keeps the layouts of the classes before the first one that
fails, and a layout that was answered once is answered ever after.
-/

open DeviceLayout.Action

namespace DeviceLayout

namespace Registry

variable {S : Setting} {r : Registry} {id : ClassId} {d : ClassDescriptor} {p : Placement}

/-! ## Asking again -/

/-- A kept layout is answered without a change. -/
theorem layoutOf_of_kept (h : r.catalog.class? id = some d) (hp : r.layout? id = some p) :
    (layoutOf S id).run r = ⟨.ok p, r, []⟩ := by
  rw [layoutOf, run_get_bind, h]
  dsimp only
  rw [hp]
  rfl

/-- A kept layout is answered after any requests. -/
theorem WellFormed.layoutOf_afterFrom (hr : r.WellFormed S) (hp : r.layout? id = some p)
    (requests : List Request) :
    (afterFrom S r requests).layout? id = some p ∧
      ((layoutOf S id).run (afterFrom S r requests)).result = .ok p := by
  obtain ⟨hr', he⟩ := hr.extends_afterFrom requests
  obtain ⟨d, h⟩ := hr'.class?_of_layout? (he.layout? hp)
  refine ⟨he.layout? hp, ?_⟩
  rw [layoutOf_of_kept h (he.layout? hp)]

/-- The same request again answers the same. -/
theorem WellFormed.layoutOf_twice (hr : r.WellFormed S) (h : r.catalog.class? id = some d) :
    ((layoutOf S id).run ((layoutOf S id).run r).state).result =
      ((layoutOf S id).run r).result := by
  obtain ⟨hadds, hresult⟩ := layoutOf_run hr h
  have hr' := (hr.reaches hadds.reaches).1
  have h' : ((layoutOf S id).run r).state.catalog.class? id = some d := hadds.catalog_eq ▸ h
  rw [(layoutOf_run hr' h').2, hadds.catalog_eq, hresult]

/-- Where a class of the ancestry fails, only the classes above it have a fresh layout. -/
theorem freshAbove_of_error {c : Catalog} {a b : ClassId} {q : Placement} {e : LayoutError}
    {above below : List ClassId} (hsplit : c.ancestry id = above ++ a :: below)
    (hbelow : ∀ b ∈ a :: below, c.freshLayout S.config b = .error (a, e)) :
    FreshAbove S c id b q ↔ b ∈ above ∧ c.freshLayout S.config b = .ok q := by
  rw [FreshAbove, ← Catalog.mem_ancestry, hsplit]
  constructor
  · rintro ⟨hb, hq⟩
    rcases List.mem_append.mp hb with hb | hb
    · exact ⟨hb, hq⟩
    · cases (hbelow b hb).symm.trans hq
  · rintro ⟨hb, hq⟩
    exact ⟨List.mem_append_left _ hb, hq⟩

/-! ## Sizes -/

theorem knownSize_of_kept (hp : r.layout? d.id = some p) :
    ((knownSize d).run r).result = .ok p.size := by
  rw [knownSize, run_get_bind, hp]
  rfl

theorem knownSize_of_none (hp : r.layout? d.id = none) :
    ((knownSize d).run r).result = .ok 0 := by
  rw [knownSize, run_get_bind, hp]
  rfl

/-- The size of a class is that of its layout. -/
theorem classSize_result (S : Setting) (id : ClassId) (r : Registry) :
    ((classSize S id).run r).result = ((layoutOf S id).run r).result.map (·.size) := by
  show ((layoutOf S id >>= fun p => Pure.pure p.size).run r).result = _
  rw [run_bind, Outcome.andThen]
  cases ((layoutOf S id).run r).result with
  | ok p => rfl
  | error e => rfl

/-- It is 0 if there is no layout. -/
theorem classSizeOrZero_result (S : Setting) (id : ClassId) (r : Registry) :
    ((classSizeOrZero S id).run r).result =
      match ((layoutOf S id).run r).result with
      | .ok p => .ok p.size
      | .error _ => .ok 0 := by
  rw [classSizeOrZero, run_bind_of_ok (run_attempt _ _), Outcome.result_after, classSize_result]
  cases ((layoutOf S id).run r).result with
  | ok p => rfl
  | error e => rfl

/-! ## Transparency -/

/-- After any history, a request for a layout answers what a fresh computation answers. A layout
that is answered stays for good, and with it those of all ancestors; a request that fails keeps
the layouts of the ancestors above the first class that has none. -/
theorem layoutOf_transparent (S : Setting) (history : List Request) {id : ClassId}
    {d : ClassDescriptor} (h : (after S history).catalog.class? id = some d) :
    let r := after S history
    let o := (layoutOf S id).run r
    let fresh := r.catalog.freshLayout S.config
    o.state.catalog = r.catalog ∧ o.state.walked = r.walked ∧
    match fresh id with
    | .ok p =>
      o.result = .ok p ∧
      (∀ b ∈ r.catalog.ancestry id, ∃ q, fresh b = .ok q) ∧
      (∀ b q, o.state.layout? b = some q ↔
        r.layout? b = some q ∨ b ∈ r.catalog.ancestry id ∧ fresh b = .ok q) ∧
      ((knownSize d).run o.state).result = .ok p.size ∧
      ((classSizeOrZero S id).run o.state).result = .ok p.size ∧
      ∀ requests, (afterFrom S o.state requests).layout? id = some p ∧
        ((layoutOf S id).run (afterFrom S o.state requests)).result = .ok p
    | .error (a, e) =>
      o.result = .error (blame d a e) ∧
      (∃ above below, r.catalog.ancestry id = above ++ a :: below ∧
        (∀ b ∈ above, ∃ q, fresh b = .ok q) ∧ r.catalog.FailsAt S.config a e ∧
        ∀ b q, o.state.layout? b = some q ↔ r.layout? b = some q ∨ b ∈ above ∧ fresh b = .ok q) ∧
      ((knownSize d).run o.state).result = .ok 0 ∧
      ((classSizeOrZero S id).run o.state).result = .ok 0 := by
  intro r o fresh
  have hr : r.WellFormed S := wellFormed_after S history
  have hc := hr.catalog
  obtain ⟨hadds, hresult⟩ := layoutOf_run hr h
  have hr' : o.state.WellFormed S := (hr.reaches hadds.reaches).1
  have hid : d.id = id := hc.id_eq h
  have hagain : ((layoutOf S id).run o.state).result = o.result := hr.layoutOf_twice h
  refine ⟨hadds.catalog_eq, hadds.walked_eq, ?_⟩
  cases hf : fresh id with
  | ok p =>
    have hok : o.result = .ok p := by
      rw [hresult, show r.catalog.freshLayout S.config id = _ from hf]
    have hp : o.state.layout? id = some p :=
      (hadds.layout?_iff id p).mpr (Or.inr ⟨hc.mem_lineage_self h, hf⟩)
    refine ⟨hok, ?_, ?_, knownSize_of_kept (hid.symm ▸ hp), ?_, hr'.layoutOf_afterFrom hp⟩
    · intro b hb
      exact hc.freshLayout_of_mem_lineage h hf b (Catalog.mem_ancestry.mp hb)
    · intro b q
      rw [Catalog.mem_ancestry]
      exact hadds.layout?_iff b q
    · rw [classSizeOrZero_result, hagain, hok]
  | error f =>
    obtain ⟨a, e⟩ := f
    have herr : o.result = .error (blame d a e) := by
      rw [hresult, show r.catalog.freshLayout S.config id = _ from hf]
    have hnone : o.state.layout? id = none := by
      cases hl : o.state.layout? id with
      | none => rfl
      | some p =>
        have hfresh := hr'.freshLayout_of_layout? hl
        rw [hadds.catalog_eq] at hfresh
        cases hf.symm.trans hfresh
    obtain ⟨above, below, hsplit, hok, hfails, hbelow⟩ := hc.freshLayout_eq_error h hf
    refine ⟨herr, ⟨above, below, hsplit, hok, hfails, fun b q => ?_⟩,
      knownSize_of_none (hid.symm ▸ hnone), ?_⟩
    · rw [hadds.layout?_iff, freshAbove_of_error hsplit hbelow]
    · rw [classSizeOrZero_result, hagain, herr]

/-- `A` is classified and `B` below it is not : the request for `B` fails at `B`, and keeps the
layout of `A`. -/
theorem layoutOf_transparent_unclassified :
    let r := after .pair [.registerField ⟨"B", "x"⟩, .registerField ⟨"B", "y"⟩,
      .onClass ⟨0⟩ .classify]
    let o := (layoutOf .pair ⟨1⟩).run r
    o.result = .error (.notClassified "B") ∧ (o.state.layout? ⟨0⟩).isSome = true ∧
      ((classSizeOrZero .pair ⟨1⟩).run o.state).result = .ok 0 := by
  intro r o
  have h : r.catalog.class? ⟨1⟩ = some
      { id := ⟨1⟩, hostName := "B", parent := some ⟨0⟩
        fields := [⟨⟨1⟩, ⟨"y", .primitive .long, false⟩⟩] } := by decide +kernel
  have hfresh : r.catalog.freshLayout Setting.pair.config ⟨1⟩ =
      .error (⟨1⟩, .notClassified "B") := by decide +kernel
  obtain ⟨-, -, hanswer⟩ := layoutOf_transparent .pair _ h
  rw [hfresh] at hanswer
  obtain ⟨hresult, -, -, hzero⟩ := hanswer
  exact ⟨hresult, by decide +kernel, hzero⟩

end Registry

end DeviceLayout
