import DeviceLayout.Proofs.Catalog.Change
import DeviceLayout.Proofs.Program.Ancestors

/-!
# Catalogs that mirror their host

Discovery creates classes on the fly, each below the class the host names as its parent. So
the chain above a class of the catalog is the chain the host gives (`Catalog.Mirrors`), as
long as the host does not contradict itself, and the class that declares a field can be found
by asking the host alone (`Mirrors.declaring?_iff`) : it is the one that the access means
(`means_of_declaring?`).

Nothing but what the scope admits is ever in the catalog (`Catalog.Within`).
-/

namespace DeviceLayout

/-- The nearest class that declares the field, among the class the access goes through and
the classes above it. -/
def Host.nearest? (host : Host) (access : FieldRef) : Option String :=
  (host.ancestors access.className).bind fun ancestors =>
    (access.className :: ancestors).find? fun name =>
      (host.declaredField name access.name).isSome

/-- The field that an access means : the nearest class that declares it, and the declaration. -/
def Host.Means (host : Host) (access : FieldRef) (C : String) (declaration : HostField) : Prop :=
  host.nearest? access = some C ∧ host.declaredField C access.name = some declaration

/-- An access means one field. -/
theorem Host.Means.unique {host : Host} {access : FieldRef} {C C' : String}
    {declaration declaration' : HostField} (h : host.Means access C declaration)
    (h' : host.Means access C' declaration') : C = C' ∧ declaration = declaration' := by
  obtain rfl := Option.some.inj (h.1.symm.trans h'.1)
  exact ⟨rfl, Option.some.inj (h.2.symm.trans h'.2)⟩

namespace Catalog

variable {S : Setting} {A : Scope} {host : Host} {c c' : Catalog} {id : ClassId}
  {d d' : ClassDescriptor}

/-! ## The host's chains -/

/-- The host's chain above `d` is in the catalog, and `d` stands below its first class. -/
def MirrorsAt (c : Catalog) (host : Host) (d : ClassDescriptor) : Prop :=
  ∃ ancestors, host.ancestors d.hostName = some ancestors ∧
    (∀ a ∈ ancestors, (c.lookup a).isSome) ∧ d.parent = ancestors.head?.bind c.lookup

/-- Every class stands where the host has it. -/
def Mirrors (c : Catalog) (host : Host) : Prop :=
  ∀ id d, c.class? id = some d → c.MirrorsAt host d

theorem Mirrors.empty (host : Host) : Mirrors {} host := by
  intro id d h
  simp [class?] at h

theorem MirrorsAt.extends (h : c.MirrorsAt host d) (hc : c.WellFormed) (hc' : c'.WellFormed)
    (he : c.Extends c') (hd : d.Extends d') : c'.MirrorsAt host d' := by
  obtain ⟨ancestors, hanc, hall, hparent⟩ := h
  have hkeep : ∀ a ∈ ancestors, c'.lookup a = c.lookup a := by
    intro a ha
    obtain ⟨i, hi⟩ := Option.isSome_iff_exists.mp (hall a ha)
    rw [hi, he.lookup hc hc' hi]
  refine ⟨ancestors, hd.hostName_eq ▸ hanc, fun a ha => hkeep a ha ▸ hall a ha, ?_⟩
  rw [hd.parent_eq, hparent]
  cases ancestors with
  | nil => rfl
  | cons a rest => exact (hkeep a (List.mem_cons_self ..)).symm

/-- A class that fits stands below the chain the host gives for it. -/
theorem Fits.ancestors (hh : host.Coherent) {name : String} {parent : Option ClassId}
    (h : c.Fits host name parent) : ∃ above, host.ancestors name = some above ∧
      (∀ a ∈ above, (c.lookup a).isSome) ∧ parent = above.head?.bind c.lookup := by
  obtain ⟨target, ancestors, below, above, hanc, hsplit, hall, hparent⟩ := h
  refine ⟨above, ?_, hall, hparent⟩
  cases below with
  | nil =>
    obtain ⟨rfl, rfl⟩ := List.cons.inj hsplit
    exact hanc
  | cons b below =>
    obtain ⟨rfl, rfl⟩ := List.cons.inj hsplit
    exact hh.ancestors_of_append hanc

/-- Discovery keeps to the host's chains. A class is new, on the chain the host gives it, or a later
state of one that was there. -/
theorem Mirrors.discovers (hh : S.host.Coherent) (hm : c.Mirrors S.host) (hc : c.WellFormed)
    (h : c.Discovers S A c') : c'.Mirrors S.host := by
  have hc' := hc.change h.change
  have he := h.extends
  intro id d' hd'
  have hold : ∀ {d}, c.class? id = some d → c'.MirrorsAt S.host d' := by
    intro d hd
    obtain ⟨d'', hd'', hext⟩ := he.class? hd
    obtain rfl := Option.some.inj (hd'.symm.trans hd'')
    exact (hm _ _ hd).extends hc hc' he hext
  cases h with
  | newClass hA hnew hfits =>
    rcases class?_withClass hd' with hd | ⟨rfl, rfl⟩
    · exact hold hd
    · obtain ⟨above, hanc, hall, hparent⟩ := hfits.ancestors hh
      have hat : c.MirrorsAt S.host
          { id := ⟨c.classes.length⟩, hostName := _, parent := _, packing := S.config.packing } :=
        ⟨above, hanc, hall, hparent⟩
      exact hat.extends hc hc' he (.refl _)
  | addMethod hA h hname hnew =>
    rcases class?_withDescriptor h hd' with ⟨rfl, -⟩ | ⟨-, hd⟩
    · exact hold h
    · exact hold hd
  | addField hA h hnew hopen =>
    rcases class?_withDescriptor h hd' with ⟨rfl, -⟩ | ⟨-, hd⟩
    · exact hold h
    · exact hold hd
  | addArrays hA => exact hold hd'

theorem Mirrors.discovery (hh : S.host.Coherent) (hm : c.Mirrors S.host) (hc : c.WellFormed)
    (h : c.Discovery S A c') : c'.Mirrors S.host := by
  induction h with
  | refl => exact hm
  | tail hpre hstep ih => exact ih.discovers hh (hc.reaches (Discovery.reaches hpre)) hstep

/-- A class of the catalog has a chain, which is in the catalog. -/
theorem Mirrors.chain (hm : c.Mirrors host) (hc : c.WellFormed) {name : String}
    (hl : (c.lookup name).isSome) : ∃ above, host.ancestors name = some above ∧
      ∀ a ∈ above, (c.lookup a).isSome := by
  obtain ⟨id, hid⟩ := Option.isSome_iff_exists.mp hl
  obtain ⟨d, hd, rfl⟩ := hc.lookup_eq_some_iff.mp hid
  obtain ⟨above, hanc, hall, -⟩ := hm _ _ hd
  exact ⟨above, hanc, hall⟩

/-! ## Declaring classes -/

/-- The parent of a class stands at the front of the host's chain. -/
theorem Mirrors.ancestors_of_root (hm : c.Mirrors host) (h : c.class? id = some d)
    (hp : d.parent = none) : host.ancestors d.hostName = some [] := by
  obtain ⟨ancestors, hanc, hall, hparent⟩ := hm _ _ h
  cases ancestors with
  | nil => exact hanc
  | cons a rest =>
    obtain ⟨i, hi⟩ := Option.isSome_iff_exists.mp (hall a (List.mem_cons_self ..))
    rw [hp, List.head?_cons, Option.bind_some, hi] at hparent
    cases hparent

theorem Mirrors.ancestors_of_parent (hh : host.Coherent) (hm : c.Mirrors host) (hc : c.WellFormed)
    (h : c.class? id = some d) {parent : ClassId} {q : ClassDescriptor}
    (hp : d.parent = some parent) (hq : c.class? parent = some q) :
    ∃ rest, host.ancestors d.hostName = some (q.hostName :: rest) ∧
      host.ancestors q.hostName = some rest := by
  obtain ⟨ancestors, hanc, hall, hparent⟩ := hm _ _ h
  rw [hp] at hparent
  cases ancestors with
  | nil => cases hparent
  | cons a rest =>
    rw [List.head?_cons, Option.bind_some] at hparent
    obtain ⟨q', hq', rfl⟩ := hc.lookup_eq_some_iff.mp hparent.symm
    obtain rfl := Option.some.inj (hq.symm.trans hq')
    exact ⟨rest, hanc, hh.ancestors_tail hanc⟩

/-- The class that declares a field, seen from a class of the catalog, is the first on the host's
chain that declares it. -/
theorem Mirrors.declaring?_iff_find? (hh : host.Coherent) (hm : c.Mirrors host)
    (hc : c.WellFormed) (h : c.class? id = some d) {ancestors : List String}
    (hanc : host.ancestors d.hostName = some ancestors) {field : String} {owner : ClassId}
    {declaration : HostField} :
    c.declaring? host id field = some (owner, declaration) ↔
      ∃ C, (d.hostName :: ancestors).find? (fun n => (host.declaredField n field).isSome) = some C ∧
        c.lookup C = some owner ∧ host.declaredField C field = some declaration := by
  induction id, d, h using hc.parent_induction generalizing ancestors with
  | root id d h hp =>
    obtain rfl := Option.some.inj ((hm.ancestors_of_root h hp).symm.trans hanc)
    rw [WellFormed.declaring?_of_root h hp]
    cases hf : host.declaredField d.hostName field with
    | none => simp [hf]
    | some f => simp [hf, hc.lookup_hostName h]
  | child id d h parent q hq hp ih =>
    obtain ⟨rest, hanc', hrest⟩ := hm.ancestors_of_parent hh hc h hp hq
    obtain rfl := Option.some.inj (hanc'.symm.trans hanc)
    rw [hc.declaring?_of_parent h hp]
    cases hf : host.declaredField d.hostName field with
    | none =>
      have hself : ¬ (host.declaredField d.hostName field).isSome = true := by simp [hf]
      rw [Option.map_none, Option.none_or, ih hrest,
        List.find?_cons_of_neg (a := d.hostName) hself]
    | some f => simp [hf, hc.lookup_hostName h]

/-- The same, for an access through a class of the catalog. -/
theorem Mirrors.declaring?_iff (hh : host.Coherent) (hm : c.Mirrors host) (hc : c.WellFormed)
    {access : FieldRef} (hl : c.lookup access.className = some id) {owner : ClassId}
    {declaration : HostField} :
    c.declaring? host id access.name = some (owner, declaration) ↔
      ∃ C, host.nearest? access = some C ∧ c.lookup C = some owner ∧
        host.declaredField C access.name = some declaration := by
  obtain ⟨d, h, hn⟩ := hc.lookup_eq_some_iff.mp hl
  obtain ⟨ancestors, hanc, -⟩ := hm _ _ h
  rw [hm.declaring?_iff_find? hh hc h hanc, Host.nearest?, ← hn, hanc, Option.bind_some]

/-- What an access means, seen from the catalog. -/
theorem means_of_declaring? (hh : host.Coherent) (hm : c.Mirrors host) (hc : c.WellFormed)
    {access : FieldRef} {through owner : ClassId} {declaration : HostField}
    (hl : c.lookup access.className = some through)
    (hdecl : c.declaring? host through access.name = some (owner, declaration))
    (h : c.class? owner = some d) : host.Means access d.hostName declaration := by
  obtain ⟨C, hnear, hown, hdeclared⟩ := (hm.declaring?_iff hh hc hl).mp hdecl
  obtain ⟨q, hq, rfl⟩ := hc.lookup_eq_some_iff.mp hown
  obtain rfl := Option.some.inj (h.symm.trans hq)
  exact ⟨hnear, hdeclared⟩

/-- The class that an access through a registered class means is registered. -/
theorem Mirrors.isSome_lookup_of_nearest? (hm : c.Mirrors host) (hc : c.WellFormed)
    {access : FieldRef} {C : String} (hl : (c.lookup access.className).isSome)
    (hnear : host.nearest? access = some C) : (c.lookup C).isSome := by
  obtain ⟨above, habove, hall⟩ := hm.chain hc hl
  rw [Host.nearest?, habove, Option.bind_some] at hnear
  rcases List.mem_cons.mp (List.mem_of_find?_eq_some hnear) with rfl | hC
  · exact hl
  · exact hall C hC

/-! ## Nothing from outside the scope -/

/-- All members of all classes are in the scope, and methods stand on the classes they name. -/
def Within (c : Catalog) (A : Scope) : Prop :=
  ∀ id d, c.class? id = some d →
    (∀ m ∈ d.methods, A.method m ∧ m.className = d.hostName) ∧
      ∀ f ∈ d.fields, A.field d.hostName f.declaration

theorem Within.empty (A : Scope) : Within {} A := by
  intro id d h
  simp [class?] at h

theorem Within.discovers (hw : c.Within A) (h : c.Discovers S A c') : c'.Within A := by
  intro id d' hd'
  cases h with
  | newClass hA hnew hfits =>
    rcases class?_withClass hd' with hd | ⟨-, rfl⟩
    · exact hw _ _ hd
    · exact ⟨(fun _ hm => nomatch hm), (fun _ hf => nomatch hf)⟩
  | addMethod hA h hname hnew =>
    rcases class?_withDescriptor h hd' with ⟨rfl, rfl⟩ | ⟨-, hd⟩
    · refine ⟨fun m hm => ?_, (hw _ _ h).2⟩
      rcases List.mem_append.mp hm with hm | hm
      · exact (hw _ _ h).1 m hm
      · rw [List.mem_singleton.mp hm]
        exact ⟨hA, hname.symm⟩
    · exact hw _ _ hd
  | addField hA h hnew hopen =>
    rcases class?_withDescriptor h hd' with ⟨rfl, rfl⟩ | ⟨-, hd⟩
    · refine ⟨(hw _ _ h).1, fun f hf => ?_⟩
      rcases List.mem_append.mp hf with hf | hf
      · exact (hw _ _ h).2 f hf
      · rw [List.mem_singleton.mp hf]
        exact hA
    · exact hw _ _ hd
  | addArrays hA => exact hw _ _ hd'

theorem Within.discovery (hw : c.Within A) (h : c.Discovery S A c') : c'.Within A := by
  induction h with
  | refl => exact hw
  | tail _ hstep ih => exact ih.discovers hstep

end Catalog

end DeviceLayout
