import DeviceLayout.Proofs.Registry.Change

/-!
# Layouts computed afresh

`Catalog.freshLayout` is the layout of a class as it would be computed with nothing kept :
behind the layout of its parent, computed afresh in turn. The first class of the ancestry that
has no layout decides the error.

A kept layout is the fresh one (`Registry.WellFormed.freshLayout_of_layout?`). So a request
answers what a fresh computation answers, however many of the ancestors were laid out before
(`Registry.layoutOf_run`), and keeps the fresh layouts of all classes of the ancestry that
have one (`Registry.Adds`).
-/

open Relation DeviceLayout.Action

namespace DeviceLayout

/-! ## The fresh layout -/

namespace Catalog

variable {c : Catalog} {config : LayoutConfig} {id a : ClassId} {d : ClassDescriptor}
  {e : LayoutError} {p : Placement}

/-- The layout of a class behind a parent of the given size; an error comes with the class it
arose at. -/
def layoutBehind (config : LayoutConfig) (id : ClassId) (d : ClassDescriptor)
    (parentSize : Option UInt32) : Except (ClassId × LayoutError) Placement :=
  (Placement.compute d parentSize config).mapError (Prod.mk id)

/-- The layout of a class, parents first, with nothing kept. -/
def freshLayout (config : LayoutConfig) (c : Catalog) (id : ClassId) :
    Except (ClassId × LayoutError) Placement :=
  match c.class? id with
  | none => .error (id, .unknownClassId id)
  | some d =>
    match d.parent with
    | none => layoutBehind config id d none
    | some parent =>
      if _h : parent.index < id.index then
        match freshLayout config c parent with
        | .error e => .error e
        | .ok q => layoutBehind config id d (some q.size)
      else layoutBehind config id d none
termination_by id.index

theorem freshLayout_of_root (h : c.class? id = some d) (hp : d.parent = none) :
    freshLayout config c id = layoutBehind config id d none := by
  rw [freshLayout, h]
  dsimp only
  rw [hp]

theorem WellFormed.freshLayout_of_parent (hc : c.WellFormed) {parent : ClassId}
    (h : c.class? id = some d) (hp : d.parent = some parent) :
    freshLayout config c id = match freshLayout config c parent with
      | .error e => .error e
      | .ok q => layoutBehind config id d (some q.size) := by
  rw [freshLayout, h]
  dsimp only
  rw [hp]
  exact dif_pos (hc.parent_lt h hp)

theorem layoutBehind_eq_ok {parentSize : Option UInt32} :
    layoutBehind config id d parentSize = .ok p ↔
      Placement.compute d parentSize config = .ok p := by
  unfold layoutBehind
  cases Placement.compute d parentSize config with
  | ok q => simp [Except.mapError]
  | error e => simp [Except.mapError]

theorem layoutBehind_eq_error {parentSize : Option UInt32} :
    layoutBehind config id d parentSize = .error (a, e) ↔
      a = id ∧ Placement.compute d parentSize config = .error e := by
  unfold layoutBehind
  cases Placement.compute d parentSize config with
  | ok q => simp [Except.mapError]
  | error e' => simp [Except.mapError, eq_comm]

/-- Everything above a class with a fresh layout has one. -/
theorem WellFormed.freshLayout_of_mem_lineage (hc : c.WellFormed) (h : c.class? id = some d)
    (hp : freshLayout config c id = .ok p) :
    ∀ b ∈ c.lineage id, ∃ q, freshLayout config c b = .ok q := by
  induction id, d, h using hc.parent_induction generalizing p with
  | root id d h hroot =>
    rw [lineage_of_root h hroot]
    intro b hb
    rw [List.mem_singleton.mp hb]
    exact ⟨p, hp⟩
  | child id d h parent q hq hparent ih =>
    rw [hc.lineage_of_parent h hparent]
    intro b hb
    rcases List.mem_cons.mp hb with rfl | hb
    · exact ⟨p, hp⟩
    · rw [hc.freshLayout_of_parent h hparent] at hp
      cases habove : freshLayout config c parent with
      | error e => simp [habove] at hp
      | ok p' => exact ih habove b hb

/-- A class is laid out behind what its parent is. -/
def FailsAt (config : LayoutConfig) (c : Catalog) (a : ClassId) (e : LayoutError) : Prop :=
  ∃ d parentSize, c.class? a = some d ∧ Placement.compute d parentSize config = .error e ∧
    match d.parent with
    | none => parentSize = none
    | some parent => ∃ q, freshLayout config c parent = .ok q ∧ parentSize = some q.size

/-- The error of a fresh layout arises at the first class of the ancestry that has none. -/
theorem WellFormed.freshLayout_eq_error (hc : c.WellFormed) (h : c.class? id = some d)
    (he : freshLayout config c id = .error (a, e)) :
    ∃ above below, c.ancestry id = above ++ a :: below ∧
      (∀ b ∈ above, ∃ q, freshLayout config c b = .ok q) ∧ c.FailsAt config a e ∧
      ∀ b ∈ a :: below, freshLayout config c b = .error (a, e) := by
  induction id, d, h using hc.parent_induction with
  | root id d h hroot =>
    have he' := he
    rw [freshLayout_of_root h hroot] at he'
    obtain ⟨rfl, hcompute⟩ := layoutBehind_eq_error.mp he'
    refine ⟨[], [], ancestry_of_root h hroot, (fun _ hb => nomatch hb),
      ⟨d, none, h, hcompute, by rw [hroot]⟩, ?_⟩
    intro b hb
    rwa [List.mem_singleton.mp hb]
  | child id d h parent q hq hparent ih =>
    rw [hc.ancestry_of_parent h hparent]
    have he' := he
    rw [hc.freshLayout_of_parent h hparent] at he'
    cases habove : freshLayout config c parent with
    | error f =>
      rw [habove] at he'
      obtain rfl := Except.error.inj he'
      obtain ⟨above, below, hsplit, hok, hfails, hbelow⟩ := ih habove
      refine ⟨above, below ++ [id], by simp [hsplit], hok, hfails, ?_⟩
      intro b hb
      rcases List.mem_append.mp (List.cons_append .. ▸ hb : b ∈ (a :: below) ++ [id]) with hb | hb
      · exact hbelow b hb
      · rwa [List.mem_singleton.mp hb]
    | ok p' =>
      rw [habove] at he'
      obtain ⟨rfl, hcompute⟩ := layoutBehind_eq_error.mp he'
      refine ⟨c.ancestry parent, [], rfl, ?_, ⟨d, some p'.size, h, hcompute, ?_⟩, ?_⟩
      · intro b hb
        exact hc.freshLayout_of_mem_lineage hq habove b (mem_ancestry.mp hb)
      · rw [hparent]
        exact ⟨p', habove, rfl⟩
      · intro b hb
        rwa [List.mem_singleton.mp hb]

end Catalog

/-! ## Kept layouts are fresh -/

namespace Registry

variable {S : Setting} {r r' r'' : Registry} {id : ClassId} {d : ClassDescriptor} {p : Placement}

/-- A kept layout is the one a fresh computation gives. -/
theorem WellFormed.freshLayout_of_layout? (hr : r.WellFormed S) (hp : r.layout? id = some p) :
    r.catalog.freshLayout S.config id = .ok p := by
  obtain ⟨d, h⟩ := hr.class?_of_layout? hp
  induction id, d, h using hr.catalog.parent_induction generalizing p with
  | root id d h hroot =>
    obtain ⟨ps, hps, hcompute⟩ := hr.compute_of_layout? h hp
    obtain rfl := Option.some.inj ((parentSize?_of_root hroot).symm.trans hps)
    rw [Catalog.freshLayout_of_root h hroot]
    exact Catalog.layoutBehind_eq_ok.mpr hcompute
  | child id d h parent q hq hparent ih =>
    obtain ⟨ps, hps, hcompute⟩ := hr.compute_of_layout? h hp
    obtain ⟨p', hp', rfl⟩ := (parentSize?_of_parent hparent).mp hps
    rw [hr.catalog.freshLayout_of_parent h hparent, ih hp']
    exact Catalog.layoutBehind_eq_ok.mpr hcompute

/-- `r'` is `r` with the layouts `new` added. -/
structure Adds (S : Setting) (r r' : Registry) (new : ClassId → Placement → Prop) : Prop where
  reaches : Reaches S r r'
  catalog_eq : r'.catalog = r.catalog
  walked_eq : r'.walked = r.walked
  layout?_iff : ∀ b q, r'.layout? b = some q ↔ r.layout? b = some q ∨ new b q

/-- Nothing is added that is there. -/
theorem Adds.refl {new : ClassId → Placement → Prop}
    (h : ∀ b q, new b q → r.layout? b = some q) : Adds S r r new where
  reaches := .refl
  catalog_eq := rfl
  walked_eq := rfl
  layout?_iff b q := ⟨Or.inl, fun h' => h'.elim id (h b q)⟩

theorem Adds.trans {new new' : ClassId → Placement → Prop} (h : Adds S r r' new)
    (h' : Adds S r' r'' new') : Adds S r r'' fun b q => new b q ∨ new' b q where
  reaches := h.reaches.trans h'.reaches
  catalog_eq := h'.catalog_eq.trans h.catalog_eq
  walked_eq := h'.walked_eq.trans h.walked_eq
  layout?_iff b q := by rw [h'.layout?_iff, h.layout?_iff, or_assoc]

/-- The same layouts, described in another way. -/
theorem Adds.congr {new new' : ClassId → Placement → Prop} (h : Adds S r r' new)
    (hnew : ∀ b q, new b q ↔ new' b q) : Adds S r r' new' :=
  { h with layout?_iff := fun b q => by rw [h.layout?_iff, hnew] }

/-! ## One class of a chain -/

section

variable {target : ClassDescriptor} {rest : List ClassId} {ps : Option UInt32}

/-- A class whose layout succeeds is laid out, if it was not before, and the next classes come
behind it. -/
theorem WellFormed.layOutChain_of_ok (hr : r.WellFormed S) (h : r.catalog.class? id = some d)
    (hps : r.parentSize? d = some ps) (hp : Placement.compute d ps S.config = .ok p) :
    ∃ r' log, Adds S r r' (fun b q => b = id ∧ q = p) ∧
      (layOutChain S.config target (id :: rest) ps).run r =
        ((layOutChain S.config target rest (some p.size)).run r').after log := by
  rw [layOutChain, run_get_bind]
  cases hl : r.layout? id with
  | some p' =>
    obtain ⟨ps', hps', hp'⟩ := hr.compute_of_layout? h hl
    obtain rfl := Option.some.inj (hps.symm.trans hps')
    obtain rfl := Except.ok.inj (hp.symm.trans hp')
    exact ⟨r, [], .refl (by rintro b q ⟨rfl, rfl⟩; exact hl), rfl⟩
  | none =>
    have hid : p.classId = id := LaysOut.classId_eq hr.catalog ⟨d, ps, h, hps, hp⟩
    have hstep : Change S r { r with layouts := r.layouts ++ [p] } :=
      .layOut hl ⟨d, ps, h, hps, hp⟩
    refine ⟨{ r with layouts := r.layouts ++ [p] }, [p.event d.hostName], ⟨.single hstep, rfl,
      rfl, ?_⟩, ?_⟩
    · intro b q
      rw [layout?_append (hid.symm ▸ hl), hid]
      split
      · next hb => simp [hb, hl, eq_comm]
      · next hb => simp [hb]
    · dsimp only
      rw [h]
      dsimp only
      rw [hp]
      rfl

/-- A class whose layout fails ends the request, and nothing is added. -/
theorem WellFormed.layOutChain_of_error (hr : r.WellFormed S)
    (h : r.catalog.class? id = some d) (hps : r.parentSize? d = some ps) {e : LayoutError}
    (he : Placement.compute d ps S.config = .error e) :
    (layOutChain S.config target (id :: rest) ps).run r =
      ⟨.error (blame target id e), r, []⟩ := by
  have hl : r.layout? id = none := by
    cases hl : r.layout? id with
    | none => rfl
    | some p =>
      obtain ⟨ps', hps', hp⟩ := hr.compute_of_layout? h hl
      obtain rfl := Option.some.inj (hps.symm.trans hps')
      rw [he] at hp
      cases hp
  rw [layOutChain, run_get_bind, hl]
  dsimp only
  rw [h]
  dsimp only
  rw [he]
  rfl

end

/-! ## A whole ancestry -/

/-- `b` is in the lineage of `id`, and `q` is its fresh layout. -/
def FreshAbove (S : Setting) (c : Catalog) (id b : ClassId) (q : Placement) : Prop :=
  b ∈ c.lineage id ∧ c.freshLayout S.config b = .ok q

theorem freshAbove_of_root {c : Catalog} (h : c.class? id = some d) (hroot : d.parent = none)
    {b : ClassId} {q : Placement} :
    FreshAbove S c id b q ↔ b = id ∧ c.freshLayout S.config id = .ok q := by
  rw [FreshAbove, Catalog.WellFormed.lineage_of_root h hroot, List.mem_singleton]
  exact ⟨fun ⟨hb, hq⟩ => ⟨hb, hb ▸ hq⟩, fun ⟨hb, hq⟩ => ⟨hb, hb ▸ hq⟩⟩

theorem freshAbove_of_parent {c : Catalog} (hc : c.WellFormed) (h : c.class? id = some d)
    {parent : ClassId} (hparent : d.parent = some parent) {b : ClassId} {q : Placement} :
    FreshAbove S c id b q ↔
      FreshAbove S c parent b q ∨ (b = id ∧ c.freshLayout S.config id = .ok q) := by
  rw [FreshAbove, FreshAbove, hc.lineage_of_parent h hparent, List.mem_cons]
  constructor
  · rintro ⟨rfl | hb, hq⟩
    · exact Or.inr ⟨rfl, hq⟩
    · exact Or.inl ⟨hb, hq⟩
  · rintro (⟨hb, hq⟩ | ⟨rfl, hq⟩)
    · exact ⟨Or.inr hb, hq⟩
    · exact ⟨Or.inl rfl, hq⟩

/-- One class of a chain, behind a parent with a fresh layout. -/
theorem WellFormed.layOutChain_class (hr : r.WellFormed S) (target : ClassDescriptor)
    (rest : List ClassId) {ps : Option UInt32} (h : r.catalog.class? id = some d)
    (hps : r.parentSize? d = some ps)
    (hfresh : r.catalog.freshLayout S.config id = Catalog.layoutBehind S.config id d ps) :
    ∃ r' log, Adds S r r' (fun b q => b = id ∧ r.catalog.freshLayout S.config id = .ok q) ∧
      (layOutChain S.config target (id :: rest) ps).run r =
        match r.catalog.freshLayout S.config id with
        | .ok p => ((layOutChain S.config target rest (some p.size)).run r').after log
        | .error (a, e) => ⟨.error (blame target a e), r', log⟩ := by
  cases hl : Catalog.layoutBehind S.config id d ps with
  | ok p =>
    obtain ⟨r', log, hadds, hrun⟩ :=
      hr.layOutChain_of_ok h hps (Catalog.layoutBehind_eq_ok.mp hl)
    rw [hfresh, hl]
    exact ⟨r', log, hadds.congr fun b q => by simp [eq_comm], hrun⟩
  | error f =>
    obtain ⟨a, e⟩ := f
    obtain ⟨rfl, he⟩ := Catalog.layoutBehind_eq_error.mp hl
    rw [hfresh, hl]
    exact ⟨r, [], .refl (fun b q hq => nomatch hq.2), hr.layOutChain_of_error h hps he⟩

/-- Laying out a whole ancestry gives the fresh layout, whatever was laid out before. -/
theorem layOutChain_ancestry {c : Catalog} (hc : c.WellFormed) (target : ClassDescriptor)
    (h : c.class? id = some d) : ∀ (rest : List ClassId) {r : Registry}, r.catalog = c →
      r.WellFormed S → ∃ r' log, Adds S r r' (FreshAbove S c id) ∧
        (layOutChain S.config target (c.ancestry id ++ rest) none).run r =
          match c.freshLayout S.config id with
          | .ok p => ((layOutChain S.config target rest (some p.size)).run r').after log
          | .error (a, e) => ⟨.error (blame target a e), r', log⟩ := by
  induction id, d, h using hc.parent_induction with
  | root id d h hroot =>
    rintro rest r rfl hr
    obtain ⟨r', log, hadds, hrun⟩ := hr.layOutChain_class target rest h
      (parentSize?_of_root hroot) (Catalog.freshLayout_of_root h hroot)
    rw [Catalog.WellFormed.ancestry_of_root h hroot]
    exact ⟨r', log, hadds.congr fun b q => (freshAbove_of_root h hroot).symm, hrun⟩
  | child id d h parent q hq hparent ih =>
    rintro rest r rfl hr
    obtain ⟨r₁, log, hadds, hrun⟩ := ih (id :: rest) rfl hr
    rw [hc.ancestry_of_parent h hparent, List.append_assoc, List.singleton_append, hrun]
    have hfresh : r.catalog.freshLayout S.config id = _ := hc.freshLayout_of_parent h hparent
    cases hp : r.catalog.freshLayout S.config parent with
    | error f =>
      rw [hp] at hfresh
      rw [hfresh]
      refine ⟨r₁, log, hadds.congr fun b q => ?_, rfl⟩
      rw [freshAbove_of_parent hc h hparent, hfresh]
      simp
    | ok p =>
      rw [hp] at hfresh
      have hr₁ := (hr.reaches hadds.reaches).1
      have hparent₁ : r₁.layout? parent = some p :=
        (hadds.layout?_iff parent p).mpr (Or.inr ⟨hc.mem_lineage_self hq, hp⟩)
      have hps : r₁.parentSize? d = some (some p.size) :=
        (parentSize?_of_parent hparent).mpr ⟨p, hparent₁, rfl⟩
      have h₁ : r₁.catalog.class? id = some d := hadds.catalog_eq ▸ h
      obtain ⟨r₂, log', hadds', hrun'⟩ := hr₁.layOutChain_class target rest h₁ hps
        (hadds.catalog_eq ▸ hfresh)
      rw [hadds.catalog_eq] at hadds' hrun'
      refine ⟨r₂, log ++ log', (hadds.trans hadds').congr fun b q =>
        (freshAbove_of_parent hc h hparent).symm, ?_⟩
      dsimp only
      rw [hrun']
      cases r.catalog.freshLayout S.config id with
      | ok p' => simp [Outcome.after, List.append_assoc]
      | error f => rfl

/-! ## Requests -/

/-- What a request for the layout of a class answers and adds. Where the class has a layout, so has
everything above it, and nothing is added. -/
theorem layoutOf_run (hr : r.WellFormed S) (h : r.catalog.class? id = some d) :
    Adds S r ((layoutOf S id).run r).state (FreshAbove S r.catalog id) ∧
      ((layoutOf S id).run r).result =
        match r.catalog.freshLayout S.config id with
        | .ok p => .ok p
        | .error (a, e) => .error (blame d a e) := by
  rw [layoutOf, run_get_bind, h]
  dsimp only
  cases hl : r.layout? id with
  | some p =>
    rw [hr.freshLayout_of_layout? hl]
    refine ⟨.refl fun b q ⟨hb, hq⟩ => ?_, rfl⟩
    obtain ⟨q', hq'⟩ := Option.isSome_iff_exists.mp
      (hr.layout?_of_mem_lineage h (hl ▸ rfl) b hb)
    rw [hq', Except.ok.inj ((hr.freshLayout_of_layout? hq').symm.trans hq)]
  | none =>
    obtain ⟨r', log, hadds, hrun⟩ := layOutChain_ancestry hr.catalog d h [] rfl hr
    rw [List.append_nil] at hrun
    cases hf : r.catalog.freshLayout S.config id with
    | error f =>
      rw [hf] at hrun
      dsimp only at hrun
      rw [run_bind_of_error hrun]
      exact ⟨hadds, rfl⟩
    | ok p =>
      rw [hf] at hrun
      dsimp only [layOutChain] at hrun
      rw [run_pure] at hrun
      rw [run_bind_of_ok hrun, run_get_bind,
        (hadds.layout?_iff id p).mpr (Or.inr ⟨hr.catalog.mem_lineage_self h, hf⟩)]
      exact ⟨hadds, rfl⟩

/-- A layout is answered exactly if it is the fresh one. -/
theorem layoutOf_eq_ok_iff (hr : r.WellFormed S) (h : r.catalog.class? id = some d)
    {p : Placement} : ((layoutOf S id).run r).result = .ok p ↔
      r.catalog.freshLayout S.config id = .ok p := by
  rw [(layoutOf_run hr h).2]
  cases r.catalog.freshLayout S.config id with
  | ok q => rw [Except.ok.injEq, Except.ok.injEq]
  | error f => exact ⟨nofun, nofun⟩

/-- A request is refused with the error of the first class that has no layout. -/
theorem freshLayout_of_layoutOf_error (hr : r.WellFormed S) (h : r.catalog.class? id = some d)
    {e : LayoutError} (he : ((layoutOf S id).run r).result = .error e) :
    ∃ f, r.catalog.freshLayout S.config id = .error f ∧ e = blame d f.1 f.2 := by
  rw [(layoutOf_run hr h).2] at he
  cases hf : r.catalog.freshLayout S.config id with
  | ok q =>
    rw [hf] at he
    cases he
  | error f =>
    rw [hf] at he
    exact ⟨f, rfl, (Except.error.inj he).symm⟩

/-- A layout that can be computed is kept by the request for it. -/
theorem layout?_of_freshLayout (hr : r.WellFormed S) (h : r.catalog.class? id = some d)
    {p : Placement} (hp : r.catalog.freshLayout S.config id = .ok p) :
    ((layoutOf S id).run r).state.layout? id = some p :=
  ((layoutOf_run hr h).1.layout?_iff id p).mpr (Or.inr ⟨hr.catalog.mem_lineage_self h, hp⟩)

/-- A request for an id that is not in the registry changes nothing. -/
theorem layoutOf_of_unknown (h : r.catalog.class? id = none) :
    (layoutOf S id).run r = ⟨.error (.unknownClassId id), r, []⟩ := by
  rw [layoutOf, run_get_bind, h]
  rfl

theorem layoutOf_leads (S : Setting) (id : ClassId) : (layoutOf S id).Keeps (Leads S) := by
  intro r hr
  cases h : r.catalog.class? id with
  | none =>
    rw [layoutOf_of_unknown h]
    exact .refl
  | some d => exact (layoutOf_run hr h).1.reaches

theorem layOutAll_leads (S : Setting) :
    ∀ ids : List ClassId, (layOutAll S ids).Keeps (Leads S)
  | [] => .pure _
  | id :: rest => .bind (layoutOf_leads S id) fun _ => layOutAll_leads S rest

theorem classSize_leads (S : Setting) (id : ClassId) : (classSize S id).Keeps (Leads S) :=
  (layoutOf_leads S id).map _

theorem classSizeOrZero_leads (S : Setting) (id : ClassId) :
    (classSizeOrZero S id).Keeps (Leads S) := by
  refine .bind (x := Action.attempt (classSize S id)) (fun r => classSize_leads S id r) ?_
  intro result
  cases result with
  | ok n => exact .pure _
  | error e => exact .bind (.tell _) fun _ => .pure _

end Registry

end DeviceLayout
