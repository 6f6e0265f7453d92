import DeviceLayout.Registry
import DeviceLayout.Proofs.Layout.Placement
import DeviceLayout.Proofs.Postcondition

/-!
# How registries change

A registry changes in steps of three kinds (`Registry.Change`) : a step of its catalog, a
method that is marked as walked, or one layout more, computed from the class as it stands and
behind the kept layout of the parent.

In a well-formed registry (`Registry.WellFormed`) every kept layout is the one that would be
computed now, behind the kept layout of the parent. That is what keeps the layouts from going
stale : a class with a layout is frozen, and so is everything above it, and a frozen class has
the same layout from then on (`Placement.compute_extends`).
-/

open Relation DeviceLayout.Action

namespace DeviceLayout

namespace Registry

variable {S : Setting} {r r' r'' : Registry} {id : ClassId} {d : ClassDescriptor} {p : Placement}

/-- What a class is laid out behind : nothing for a root, else the kept layout of its parent,
if there is one. -/
def parentSize? (r : Registry) (d : ClassDescriptor) : Option (Option UInt32) :=
  match d.parent with
  | none => some none
  | some parent => (r.layout? parent).map fun p => some p.size

/-- `p` is what laying out the class `id` gives now. -/
def LaysOut (S : Setting) (r : Registry) (id : ClassId) (p : Placement) : Prop :=
  ∃ d parentSize, r.catalog.class? id = some d ∧ r.parentSize? d = some parentSize ∧
    Placement.compute d parentSize S.config = .ok p

/-- One step of a registry. -/
inductive Change (S : Setting) (r : Registry) : Registry → Prop
  | catalog {c' : Catalog} (h : r.catalog.Change S c') : Change S r { r with catalog := c' }
  | walk {m : MethodRef} (hnew : m ∉ r.walked) :
    Change S r { r with walked := r.walked ++ [m] }
  | layOut {id : ClassId} {p : Placement} (hnew : r.layout? id = none) (hp : r.LaysOut S id p) :
    Change S r { r with layouts := r.layouts ++ [p] }

/-- Any number of steps. -/
def Reaches (S : Setting) : Registry → Registry → Prop :=
  ReflTransGen (Change S)

/-- A later state of a registry. -/
structure Extends (r r' : Registry) : Prop where
  catalog : r.catalog.Extends r'.catalog
  layout? : ∀ {id p}, r.layout? id = some p → r'.layout? id = some p
  walked_prefix : r.walked <+: r'.walked

/-- Kept layouts are those that would be computed now, one for a class; methods are walked
once. -/
structure WellFormed (S : Setting) (r : Registry) : Prop where
  catalog : r.catalog.WellFormed
  laysOut : ∀ {id p}, r.layout? id = some p → r.LaysOut S id p
  layouts_nodup : (r.layouts.map (·.classId)).Nodup
  walked_nodup : r.walked.Nodup

theorem WellFormed.empty (S : Setting) : WellFormed S {} where
  catalog := .empty
  laysOut h := nomatch h
  layouts_nodup := List.nodup_nil
  walked_nodup := List.nodup_nil

/-! ## Kept layouts -/

theorem parentSize?_of_root (hp : d.parent = none) : r.parentSize? d = some none := by
  rw [parentSize?, hp]

/-- The size of the parent is known once the parent is laid out. -/
theorem parentSize?_of_parent {parent : ClassId} (hp : d.parent = some parent)
    {ps : Option UInt32} :
    r.parentSize? d = some ps ↔ ∃ q, r.layout? parent = some q ∧ some q.size = ps := by
  rw [parentSize?, hp]
  exact Option.map_eq_some_iff

/-- What has a layout is a class of the catalog. -/
theorem WellFormed.class?_of_layout? (hr : r.WellFormed S) (hp : r.layout? id = some p) :
    ∃ d, r.catalog.class? id = some d := by
  obtain ⟨d, -, h, -⟩ := hr.laysOut hp
  exact ⟨d, h⟩

/-- A kept layout is what the class gives as it stands. -/
theorem WellFormed.compute_of_layout? (hr : r.WellFormed S) (h : r.catalog.class? id = some d)
    (hp : r.layout? id = some p) :
    ∃ ps, r.parentSize? d = some ps ∧ Placement.compute d ps S.config = .ok p := by
  obtain ⟨d', ps, h', hps, hcompute⟩ := hr.laysOut hp
  obtain rfl := Option.some.inj (h.symm.trans h')
  exact ⟨ps, hps, hcompute⟩

/-- A class without a layout has no entry among the layouts. -/
theorem layout?_eq_none_iff : r.layout? id = none ↔ id ∉ r.layouts.map (·.classId) := by
  simp [layout?]

/-- A kept layout stays what it is when another is added. -/
theorem layout?_append (h : r.layout? p.classId = none) (a : ClassId) :
    { r with layouts := r.layouts ++ [p] }.layout? a =
      if a = p.classId then some p else r.layout? a := by
  unfold layout? at h ⊢
  rw [List.find?_append]
  split
  · next ha =>
    rw [ha, h, Option.none_or]
    simp
  · next ha =>
    have hne : ([p].find? fun q => q.classId = a) = none := by
      simpa using Ne.symm ha
    rw [hne, Option.or_none]

/-- A layout carries the id of its class. -/
theorem LaysOut.classId_eq (hc : r.catalog.WellFormed) (h : r.LaysOut S id p) :
    p.classId = id := by
  obtain ⟨d, ps, hd, -, hp⟩ := h
  rw [(Placement.suits_of_compute hp).classId_eq, hc.id_eq hd]

/-! ## Steps only add -/

theorem Extends.refl (r : Registry) : r.Extends r :=
  ⟨.refl _, id, List.prefix_refl _⟩

theorem Extends.trans (h : r.Extends r') (h' : r'.Extends r'') : r.Extends r'' :=
  ⟨h.catalog.trans h'.catalog, fun hp => h'.layout? (h.layout? hp),
    h.walked_prefix.trans h'.walked_prefix⟩

/-- The size of a parent stays known, and stays the same. -/
theorem Extends.parentSize? (h : r.Extends r') {d' : ClassDescriptor} (he : d.Extends d')
    {ps : Option UInt32} (hps : r.parentSize? d = some ps) : r'.parentSize? d' = some ps := by
  cases hp : d.parent with
  | none =>
    rw [parentSize?_of_root hp] at hps
    rw [parentSize?_of_root (he.parent_eq.trans hp), hps]
  | some parent =>
    obtain ⟨q, hq, hsize⟩ := (parentSize?_of_parent hp).mp hps
    exact (parentSize?_of_parent (he.parent_eq.trans hp)).mpr ⟨q, h.layout? hq, hsize⟩

/-- What a class's layout is, it stays : the class is frozen, and its parent is laid out. -/
theorem Extends.laysOut (h : r.Extends r') (hp : r.LaysOut S id p) : r'.LaysOut S id p := by
  obtain ⟨d, ps, hd, hps, hp⟩ := hp
  obtain ⟨d', hd', he⟩ := h.catalog.class? hd
  refine ⟨d', ps, hd', h.parentSize? he hps, ?_⟩
  rw [Placement.compute_extends (Placement.suits_of_compute hp).frozen he, hp]

/-- No change of a registry takes anything back. -/
theorem WellFormed.extends_of_change (hr : r.WellFormed S) (h : r.Change S r') :
    r.Extends r' := by
  cases h with
  | catalog h => exact ⟨h.extends, id, List.prefix_refl _⟩
  | walk hnew => exact ⟨.refl _, id, List.prefix_append _ _⟩
  | layOut hnew hp =>
    rename_i a p
    refine ⟨.refl _, fun {b q} hq => ?_, List.prefix_refl _⟩
    have ha := hp.classId_eq hr.catalog
    rw [layout?_append (ha ▸ hnew), if_neg, hq]
    rintro rfl
    rw [ha, hnew] at hq
    cases hq

/-! ## Steps keep registries well-formed -/

/-- Every change keeps a registry well-formed. -/
theorem WellFormed.change (hr : r.WellFormed S) (h : r.Change S r') : r'.WellFormed S := by
  have he := hr.extends_of_change h
  cases h with
  | catalog h =>
    exact { hr with
      catalog := hr.catalog.change h
      laysOut := fun hp => he.laysOut (hr.laysOut hp) }
  | walk hnew =>
    exact { hr with
      laysOut := fun hp => he.laysOut (hr.laysOut hp)
      walked_nodup := hr.walked_nodup.append (List.nodup_singleton _) (by simpa using hnew) }
  | layOut hnew hp =>
    rename_i a p
    have ha := hp.classId_eq hr.catalog
    refine { hr with laysOut := ?_, layouts_nodup := ?_ }
    · intro b q hq
      rw [layout?_append (ha ▸ hnew)] at hq
      split at hq
      · next hb =>
        obtain rfl := Option.some.inj hq
        rw [hb, ha]
        exact he.laysOut hp
      · exact he.laysOut (hr.laysOut hq)
    · rw [List.map_append]
      refine hr.layouts_nodup.append (List.nodup_singleton _) ?_
      have hfresh := layout?_eq_none_iff.mp (ha ▸ hnew)
      simpa using hfresh

/-- Whatever happens to a well-formed registry, it stays well-formed and is extended. -/
theorem WellFormed.reaches (hr : r.WellFormed S) (h : Reaches S r r') :
    r'.WellFormed S ∧ r.Extends r' := by
  induction h with
  | refl => exact ⟨hr, .refl r⟩
  | tail _ hstep ih => exact ⟨ih.1.change hstep, ih.2.trans (ih.1.extends_of_change hstep)⟩

/-- Steps of a registry take its catalog there in steps. -/
theorem Reaches.catalog (h : Reaches S r r') : r.catalog.Reaches S r'.catalog := by
  induction h with
  | refl => exact .refl
  | tail _ hstep ih =>
    cases hstep with
    | catalog h => exact ih.tail h
    | walk => exact ih
    | layOut => exact ih

/-! ## What a well-formed registry keeps -/

/-- What is above a class that is laid out is laid out. -/
theorem WellFormed.layout?_of_mem_lineage (hr : r.WellFormed S)
    (h : r.catalog.class? id = some d) (hp : (r.layout? id).isSome) :
    ∀ a ∈ r.catalog.lineage id, (r.layout? a).isSome := by
  induction id, d, h using hr.catalog.parent_induction with
  | root id d h hroot =>
    rw [Catalog.WellFormed.lineage_of_root h hroot]
    intro a ha
    rwa [List.mem_singleton.mp ha]
  | child id d h parent q hq hparent ih =>
    rw [hr.catalog.lineage_of_parent h hparent]
    obtain ⟨p, hp'⟩ := Option.isSome_iff_exists.mp hp
    obtain ⟨ps, hps, -⟩ := hr.compute_of_layout? h hp'
    obtain ⟨q', hq', -⟩ := (parentSize?_of_parent hparent).mp hps
    have habove : (r.layout? parent).isSome := by rw [hq', Option.isSome_some]
    intro a ha
    rcases List.mem_cons.mp ha with rfl | ha
    · exact hp
    · exact ih habove a ha

/-! ## Actions that take steps -/

/-- From a well-formed registry, steps lead to the other. -/
def Leads (S : Setting) (r r' : Registry) : Prop :=
  r.WellFormed S → Reaches S r r'

instance : Std.Refl (Leads S) := ⟨fun _ _ => .refl⟩

instance : Trans (Leads S) (Leads S) (Leads S) :=
  ⟨fun h h' hr => (h hr).trans (h' (hr.reaches (h hr)).1)⟩

/-- What happens to the catalog happens to the registry. -/
theorem reaches_of_catalog {c' : Catalog} (h : r.catalog.Reaches S c') :
    Reaches S r { r with catalog := c' } := by
  induction h with
  | refl => exact .refl
  | tail _ hstep ih => exact ih.tail (.catalog hstep)

/-- An action on the catalog takes the steps it takes there. -/
theorem onCatalog_leads {α : Type} {x : Action Catalog α}
    (h : ∀ c : Catalog, c.WellFormed → x.Ensures c fun _ c' => c.Reaches S c') :
    (onCatalog x).Keeps (Leads S) :=
  .onPart fun r hr => reaches_of_catalog (h r.catalog hr.catalog)

end Registry

end DeviceLayout
