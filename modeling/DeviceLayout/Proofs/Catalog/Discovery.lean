import DeviceLayout.Proofs.Catalog.Change
import DeviceLayout.Proofs.Postcondition

/-!
# What discovery does to a catalog

Each operation of discovery, successful or not, takes steps of discovery within any scope that
admits what it was asked for. An operation that succeeds leaves behind what it was asked for:
the class can be looked up (`classFor_ensures`), the method is registered
(`registerMethod_ensures`), the field is registered on the nearest class that declares it
(`registerField_ensures`), the levels of the array type are recorded
(`recordArray_ensures`). All of this stays true of every later catalog.
-/

open Relation DeviceLayout.Action

namespace DeviceLayout

/-! ## What a scope admits -/

namespace Scope

/-- The class and everything above it may be added. -/
def AdmitsClass (A : Scope) (S : Setting) (name : String) : Prop :=
  ∀ ancestors, S.host.ancestors name = some ancestors → ∀ n ∈ name :: ancestors, A.className n

/-- The class a type mentions and the array types it is made of may be added. -/
def AdmitsType (A : Scope) (S : Setting) (t : HostType) : Prop :=
  (∀ name, t.referencedClass? = some name → A.AdmitsClass S name) ∧
    ∀ level ∈ t.arrayLevels, A.array level

/-- Whatever field the access turns out to mean, starting from `c`, may be added. -/
def AdmitsAccess (A : Scope) (S : Setting) (c : Catalog) (access : FieldRef) : Prop :=
  A.AdmitsClass S access.className ∧
    ∀ {c' through owner declaration d}, c.Discovery S A c' →
      c'.lookup access.className = some through →
      c'.declaring? S.host through access.name = some (owner, declaration) →
      c'.class? owner = some d → A.field d.hostName declaration ∧ A.AdmitsType S declaration.type

theorem all_admitsClass (S : Setting) (name : String) : Scope.all.AdmitsClass S name :=
  fun _ _ _ _ => trivial

theorem all_admitsType (S : Setting) (t : HostType) : Scope.all.AdmitsType S t :=
  ⟨fun name _ => all_admitsClass S name, fun _ _ => trivial⟩

theorem all_admitsAccess (S : Setting) (c : Catalog) (access : FieldRef) :
    Scope.all.AdmitsAccess S c access :=
  ⟨all_admitsClass S _, fun _ _ _ _ => ⟨trivial, all_admitsType S _⟩⟩

/-- What an access may add now, it may add later on. -/
theorem AdmitsAccess.of_discovery {A : Scope} {S : Setting} {c c' : Catalog} {access : FieldRef}
    (h : A.AdmitsAccess S c access) (hd : c.Discovery S A c') : A.AdmitsAccess S c' access :=
  ⟨h.1, fun hd' => h.2 (hd.trans hd')⟩

end Scope

namespace Catalog

variable {S : Setting} {A : Scope} {c c' c'' : Catalog} {id : ClassId} {d : ClassDescriptor}

/-! ## What was asked for -/

/-- The method is registered on the class it names. -/
def HasMethod (c : Catalog) (m : MethodRef) : Prop :=
  ∃ d ∈ c.classes, d.hostName = m.className ∧ m ∈ d.methods

/-- The field that the access means, seen from the class it goes through, is registered on the
class that declares it. -/
def Resolves (c : Catalog) (host : Host) (access : FieldRef) : Prop :=
  ∃ through owner declaration d, c.lookup access.className = some through ∧
    c.declaring? host through access.name = some (owner, declaration) ∧
    c.class? owner = some d ∧ d.hasField declaration.name = true

theorem Extends.hasMethod (h : c.Extends c') {m : MethodRef} (hm : c.HasMethod m) :
    c'.HasMethod m := by
  obtain ⟨d, hd, hn, hmem⟩ := hm
  obtain ⟨id, hid⟩ := mem_classes_iff.mp hd
  obtain ⟨d', hd', he⟩ := h.class? hid
  exact ⟨d', mem_classes_of_class? hd', he.hostName_eq.trans hn, he.methods_prefix.subset hmem⟩

/-- An access that found its field registered will find it registered. -/
theorem Extends.resolves (h : c.Extends c') (hc : c.WellFormed) (hc' : c'.WellFormed)
    {host : Host} {access : FieldRef} (hr : c.Resolves host access) :
    c'.Resolves host access := by
  obtain ⟨through, owner, declaration, d, hl, hdecl, hd, hf⟩ := hr
  obtain ⟨q, hq, -⟩ := hc.lookup_eq_some_iff.mp hl
  obtain ⟨d', hd', he⟩ := h.class? hd
  refine ⟨through, owner, declaration, d', h.lookup hc hc' hl, ?_, hd', ?_⟩
  · rw [h.declaring?_eq hc hc' hq, hdecl]
  · obtain ⟨f, hmem, hn⟩ := ClassDescriptor.hasField_iff.mp hf
    exact ClassDescriptor.hasField_iff.mpr ⟨f, he.fields_prefix.subset hmem, hn⟩

/-! ## Classes -/

theorem ensureClass_of_known {packing : Packing} {parent : Option ClassId} {name : String}
    (h : c.lookup name = some id) :
    (ensureClass packing parent name).run c = ⟨.ok id, c, []⟩ := by
  unfold ensureClass
  rw [run_get_bind, h]
  rfl

theorem ensureClass_of_new {packing : Packing} {parent : Option ClassId} {name : String}
    (h : c.lookup name = none) :
    (ensureClass packing parent name).run c =
      ⟨.ok ⟨c.classes.length⟩, c.withClass packing parent name,
        [.newClass ⟨c.classes.length⟩ name]⟩ := by
  unfold ensureClass
  rw [run_get_bind, h]
  rfl

/-- A class is there afterwards, whether it was known or new, and nothing else has happened. -/
theorem ensureClass_ensures (hc : c.WellFormed) {parent : Option ClassId} {name : String}
    (hA : A.className name) (hfits : c.Fits S.host name parent) :
    (ensureClass S.config.packing parent name).Ensures c fun r c' =>
      c.Discovery S A c' ∧ ∃ id, r = .ok id ∧ c'.lookup name = some id := by
  cases hl : c.lookup name with
  | some id =>
    unfold Ensures
    rw [ensureClass_of_known hl]
    exact ⟨.refl, id, rfl, hl⟩
  | none =>
    have hstep : c.Discovers S A (c.withClass S.config.packing parent name) :=
      .newClass hA hl hfits
    unfold Ensures
    rw [ensureClass_of_new hl]
    refine ⟨.single hstep, _, rfl, ?_⟩
    exact (hc.change hstep.change).lookup_hostName (class?_withClass_new _ _ _)

/-- Going down a chain, root first : `above` is what has been done of it, nearest first. -/
theorem ensureChain_ensures {name : String} {ancestors : List String}
    (hanc : S.host.ancestors name = some ancestors)
    (hA : ∀ n ∈ name :: ancestors, A.className n) :
    ∀ (todo above : List String) {parent : Option ClassId} {c : Catalog}, c.WellFormed →
      ancestors = todo.reverse ++ above → (∀ a ∈ above, (c.lookup a).isSome) →
      parent = above.head?.bind c.lookup →
      (ensureChain S.config.packing name parent todo).Ensures c fun r c' =>
        c.Discovery S A c' ∧ ∃ id, r = .ok id ∧ c'.lookup name = some id
  | [], above, parent, c, hc, hsplit, habove, hparent => by
    refine ensureClass_ensures hc (hA name (List.mem_cons_self ..)) ?_
    exact ⟨name, ancestors, [], above, hanc, by simpa using hsplit, habove, hparent⟩
  | a :: todo, above, parent, c, hc, hsplit, habove, hparent => by
    have hchain : name :: ancestors = (name :: todo.reverse) ++ a :: above := by
      simp [hsplit]
    have ha : A.className a := hA a (by rw [hchain]; simp)
    have hfits : c.Fits S.host a parent :=
      ⟨name, ancestors, name :: todo.reverse, above, hanc, hchain, habove, hparent⟩
    refine (ensureClass_ensures hc ha hfits).bind ?_ ?_
    · rintro id c' ⟨hd, id', hid, hl⟩
      obtain rfl := Except.ok.inj hid
      have hc' := hc.reaches hd.reaches
      have hkeep : ∀ b ∈ a :: above, (c'.lookup b).isSome := by
        intro b hb
        rcases List.mem_cons.mp hb with rfl | hb
        · rw [hl, Option.isSome_some]
        · obtain ⟨i, hi⟩ := Option.isSome_iff_exists.mp (habove b hb)
          rw [hd.reaches.extends.lookup hc hc' hi, Option.isSome_some]
      refine (ensureChain_ensures hanc hA todo (a :: above) hc' (by simpa using hsplit) hkeep
        (by simp [hl])).mono ?_
      exact fun r c'' ⟨hd', h⟩ => ⟨hd.trans hd', h⟩
    · rintro e c' ⟨-, id, hid, -⟩
      cases hid

/-- Going down the whole chain of a class leaves the class in the catalog. -/
theorem ensureWholeChain_ensures (hc : c.WellFormed) {name : String} {ancestors : List String}
    (hanc : S.host.ancestors name = some ancestors)
    (hA : ∀ n ∈ name :: ancestors, A.className n) :
    (ensureChain S.config.packing name none ancestors.reverse).Ensures c fun r c' =>
      c.Discovery S A c' ∧ ∃ id, r = .ok id ∧ c'.lookup name = some id :=
  ensureChain_ensures hanc hA ancestors.reverse [] hc (by simp) (fun _ h => nomatch h) rfl

/-- A class that is found or created can be looked up; if the host does not resolve it, nothing
happens. -/
theorem classFor_ensures (hc : c.WellFormed) {name : String} (hA : A.AdmitsClass S name) :
    (classFor S name).Ensures c fun r c' =>
      c.Discovery S A c' ∧ match r with
        | .ok id => c'.lookup name = some id
        | .error _ => c' = c := by
  refine .get_bind ?_
  split
  · next id hl => exact .pure ⟨.refl, hl⟩
  · split
    · exact .fail ⟨.refl, rfl⟩
    · split
      · exact .fail ⟨.refl, rfl⟩
      · next ancestors hanc =>
        refine (ensureWholeChain_ensures hc hanc (hA _ hanc)).mono ?_
        rintro r c' ⟨hd, id, rfl, hl⟩
        exact ⟨hd, hl⟩

/-- Bringing in a type leaves the class it mentions in the catalog. -/
theorem bringIn_ensures (hc : c.WellFormed) {t : HostType}
    (hA : ∀ name, t.referencedClass? = some name → A.AdmitsClass S name) :
    (bringIn S t).Ensures c fun r c' =>
      c.Discovery S A c' ∧ (r = .ok () → ∀ name, t.referencedClass? = some name →
        (c'.lookup name).isSome) := by
  unfold bringIn
  split
  · next h => exact .pure ⟨.refl, fun _ name hn => by rw [h] at hn; cases hn⟩
  · next name h =>
    refine (classFor_ensures hc (hA name h)).bind ?_ fun e c' hd => ⟨hd.1, fun he => by cases he⟩
    rintro id c' ⟨hd, hl⟩
    refine .pure ⟨hd, fun _ name' hn => ?_⟩
    obtain rfl := Option.some.inj (h.symm.trans hn)
    rw [hl, Option.isSome_some]

/-! ## Array types -/

theorem mem_arrays_append_missingArrays {t level : HostType} (h : level ∈ t.arrayLevels) :
    level ∈ c.arrays ++ c.missingArrays t := by
  by_cases hmem : level ∈ c.arrays
  · exact List.mem_append_left _ hmem
  · exact List.mem_append_right _ (List.mem_filter.mpr ⟨h, by simpa using hmem⟩)

/-- The levels of an array type are recorded, whether or not its base class can be found. -/
theorem recordArray_ensures (hc : c.WellFormed) {t : HostType}
    (hA : t.isArray = true → A.AdmitsType S t) :
    (recordArray S t).Ensures c fun _ c' =>
      c.Discovery S A c' ∧ ∀ level ∈ t.arrayLevels, level ∈ c'.arrays := by
  refine .get_bind ?_
  dsimp only
  split
  · next hnone =>
    refine .pure ⟨.refl, fun level hlevel => ?_⟩
    have h := mem_arrays_append_missingArrays (c := c) hlevel
    rwa [List.isEmpty_iff.mp hnone, List.append_nil] at h
  · next hsome =>
    have hA' : A.AdmitsType S t := by
      cases t with
      | array e => exact hA rfl
      | primitive p => exact absurd rfl hsome
      | named n => exact absurd rfl hsome
    let c₁ : Catalog := { c with arrays := c.arrays ++ c.missingArrays t }
    have hstep : c.Discovery S A c₁ := .single (.addArrays hA'.2)
    have hkeep : ∀ c', c₁.Discovery S A c' → c.Discovery S A c' ∧
        ∀ level ∈ t.arrayLevels, level ∈ c'.arrays := fun c' hd =>
      ⟨hstep.trans hd, fun level hlevel =>
        hd.reaches.extends.arrays_prefix.subset (mem_arrays_append_missingArrays hlevel)⟩
    refine .tellAll_bind (.modify_bind ?_)
    exact (bringIn_ensures (hc.reaches hstep.reaches) hA'.1).bind
      (fun _ c' hd => .pure (hkeep c' hd.1)) fun _ c' hd => hkeep c' hd.1

/-- Whatever the outcome, the types are recorded by discovery; if all of them succeed, all their
levels are there. -/
theorem recordArrays_ensures :
    ∀ {ts : List HostType} {c : Catalog}, c.WellFormed →
      (∀ t ∈ ts, t.isArray = true → A.AdmitsType S t) →
      (recordArrays S ts).Ensures c fun r c' =>
        c.Discovery S A c' ∧ (r = .ok () → ∀ t ∈ ts, ∀ level ∈ t.arrayLevels, level ∈ c'.arrays)
  | [], _, _, _ => .pure ⟨.refl, fun _ _ ht => nomatch ht⟩
  | t :: ts, c, hc, hA => by
    refine (recordArray_ensures hc (hA t (List.mem_cons_self ..))).bind ?_ ?_
    · rintro n c' ⟨hd, hlevels⟩
      refine (recordArrays_ensures (hc.reaches hd.reaches)
        fun t' ht' => hA t' (List.mem_cons_of_mem t ht')).mono ?_
      rintro r c'' ⟨hd', hrest⟩
      refine ⟨hd.trans hd', fun hr t' ht' level hlevel => ?_⟩
      rcases List.mem_cons.mp ht' with rfl | ht'
      · exact hd'.reaches.extends.arrays_prefix.subset (hlevels level hlevel)
      · exact hrest hr t' ht' level hlevel
    · rintro e c' ⟨hd, -⟩
      exact ⟨hd, fun he => nomatch he⟩

/-! ## Members -/

/-- An action on a class of the catalog acts on its descriptor. -/
theorem onClass_ensures {α : Type} {x : Action ClassDescriptor α}
    {Q : Except LayoutError α → Catalog → Prop} (h : c.class? id = some d)
    (hx : x.Ensures d fun r d' => Q r (c.withDescriptor id d')) : (onClass id x).Ensures c Q := by
  unfold onClass
  refine .get_bind ?_
  rw [h]
  exact .onPart hx

theorem withDescriptor_self (h : c.class? id = some d) : c.withDescriptor id d = c := by
  have hd := (List.getElem?_eq_some_iff.mp h).2
  rw [withDescriptor, ← hd, List.set_getElem_self]

theorem onClass_addMethod_ensures {m : MethodRef} (h : c.class? id = some d)
    (hname : d.hostName = m.className) (hA : A.method m) :
    (onClass id (ClassDescriptor.addMethod m)).Ensures c fun _ c' =>
      c.Discovery S A c' ∧ c'.HasMethod m := by
  refine onClass_ensures h (.get_bind ?_)
  split
  · next hold =>
    refine .pure ?_
    rw [withDescriptor_self h]
    exact ⟨.refl, d, mem_classes_of_class? h, hname, ClassDescriptor.hasMethod_iff.mp hold⟩
  · next hnew =>
    refine .modify_bind (.pure ⟨.single (.addMethod hA h hname (by simpa using hnew)), ?_⟩)
    exact ⟨_, mem_classes_of_class? (class?_withDescriptor_self h), hname, by simp⟩

/-- Registering a field adds it or finds its name taken; on a frozen class only the latter. -/
theorem onClass_addField_ensures {f : HostField} (h : c.class? id = some d)
    (hA : A.field d.hostName f) :
    (onClass id (ClassDescriptor.addField f)).Ensures c fun r c' =>
      c.Discovery S A c' ∧ (∀ b, r = .ok b →
        ∃ d', c'.class? id = some d' ∧ d'.hasField f.name = true) := by
  refine onClass_ensures h (.get_bind ?_)
  split
  · next hold =>
    refine .pure ?_
    rw [withDescriptor_self h]
    exact ⟨.refl, fun _ _ => ⟨d, h, hold⟩⟩
  · next hnew =>
    split
    · refine .fail ?_
      rw [withDescriptor_self h]
      exact ⟨.refl, fun _ hb => nomatch hb⟩
    · next hopen =>
      refine .modify_bind (.pure ⟨.single (.addField hA h ?_ ?_), fun _ _ => ?_⟩)
      · simpa using hnew
      · simpa using hopen
      · refine ⟨_, class?_withDescriptor_self h, ClassDescriptor.hasField_iff.mpr ?_⟩
        exact ⟨⟨d.id, f⟩, by simp, rfl⟩

/-- A method that is registered stands on the class it names. -/
theorem registerMethod_ensures (hc : c.WellFormed) {m : MethodRef}
    (hclass : A.AdmitsClass S m.className) (hA : A.method m) :
    (registerMethod S m).Ensures c fun r c' =>
      c.Discovery S A c' ∧ ∀ b, r = .ok b → c'.HasMethod m := by
  refine (classFor_ensures hc hclass).bind ?_ fun e c' hd => ⟨hd.1, fun _ hb => nomatch hb⟩
  rintro id c' ⟨hd, hl⟩
  obtain ⟨d, h, hname⟩ := (hc.reaches hd.reaches).lookup_eq_some_iff.mp hl
  refine (onClass_addMethod_ensures (S := S) h hname hA).mono ?_
  exact fun r c'' ⟨hd', hm⟩ => ⟨hd.trans hd', fun _ _ => hm⟩

/-- A class that declares a field is one of the classes the search goes through. -/
theorem WellFormed.class?_of_declaring? (hc : c.WellFormed) {host : Host} {field : String}
    {owner : ClassId} {declaration : HostField} (h : c.class? id = some d)
    (hdecl : c.declaring? host id field = some (owner, declaration)) :
    ∃ q, c.class? owner = some q ∧ host.declaredField q.hostName field = some declaration := by
  induction id, d, h using hc.parent_induction with
  | root id d h hp =>
    rw [WellFormed.declaring?_of_root h hp] at hdecl
    obtain ⟨f, hf, he⟩ := Option.map_eq_some_iff.mp hdecl
    obtain ⟨rfl, rfl⟩ := Prod.mk.inj he
    exact ⟨d, h, hf⟩
  | child id d h parent q hq hp ih =>
    rw [hc.declaring?_of_parent h hp] at hdecl
    rcases Option.or_eq_some_iff.mp hdecl with hown | ⟨-, habove⟩
    · obtain ⟨f, hf, he⟩ := Option.map_eq_some_iff.mp hown
      obtain ⟨rfl, rfl⟩ := Prod.mk.inj he
      exact ⟨d, h, hf⟩
    · exact ih habove

/-- A field access that succeeds leaves its field registered on the nearest class that declares it.
What is brought in for its type afterwards keeps the field where it is. -/
theorem registerField_ensures (hc : c.WellFormed) {access : FieldRef}
    (hA : A.AdmitsAccess S c access) :
    (registerField S access).Ensures c fun r c' =>
      c.Discovery S A c' ∧ ∀ b, r = .ok b → c'.Resolves S.host access := by
  refine (classFor_ensures hc hA.1).bind ?_ fun e c' hd => ⟨hd.1, fun _ hb => nomatch hb⟩
  rintro through c₁ ⟨hd₁, hl⟩
  have hc₁ := hc.reaches hd₁.reaches
  obtain ⟨q, hq, -⟩ := hc₁.lookup_eq_some_iff.mp hl
  refine .get_bind ?_
  split
  · exact .fail ⟨hd₁, fun _ hb => nomatch hb⟩
  · next owner declaration hdecl =>
    obtain ⟨d, h, -⟩ := hc₁.class?_of_declaring? hq hdecl
    obtain ⟨hfield, htype⟩ := hA.2 hd₁ hl hdecl h
    refine (onClass_addField_ensures h hfield).bind ?_
      fun e c' hd => ⟨hd₁.trans hd.1, fun _ hb => nomatch hb⟩
    rintro added c₂ ⟨hd₂, hadded⟩
    have hc₂ := hc₁.reaches hd₂.reaches
    have hr₂ : c₂.Resolves S.host access := by
      obtain ⟨d', hd', hf⟩ := hadded added rfl
      have he := hd₂.reaches.extends
      refine ⟨through, owner, declaration, d', he.lookup hc₁ hc₂ hl, ?_, hd', hf⟩
      rw [he.declaring?_eq hc₁ hc₂ hq, hdecl]
    have hkeep : ∀ c', c₂.Discovery S A c' →
        c.Discovery S A c' ∧ c'.Resolves S.host access := fun c' hd =>
      ⟨hd₁.trans (hd₂.trans hd),
        hd.reaches.extends.resolves hc₂ (hc₂.reaches hd.reaches) hr₂⟩
    split
    · exact .pure ⟨(hkeep c₂ .refl).1, fun _ _ => hr₂⟩
    · refine (bringIn_ensures hc₂ htype.1).bind ?_
        fun e c' hd => ⟨(hkeep c' hd.1).1, fun _ hb => nomatch hb⟩
      rintro - c₃ ⟨hd₃, -⟩
      refine (recordArray_ensures (hc₂.reaches hd₃.reaches) fun _ => htype).bind ?_
        fun e c' hd => ⟨(hkeep c' (hd₃.trans hd.1)).1, fun _ hb => nomatch hb⟩
      rintro n c₄ ⟨hd₄, -⟩
      obtain ⟨hd, hr⟩ := hkeep c₄ (hd₃.trans hd₄)
      exact .pure ⟨hd, fun _ _ => hr⟩

/-- Whatever the outcome, the fields are registered by discovery; if all of them succeed, every
access finds its field registered. -/
theorem registerFields_ensures :
    ∀ {accesses : List FieldRef} {c : Catalog}, c.WellFormed →
      (∀ access ∈ accesses, A.AdmitsAccess S c access) →
      (registerFields S accesses).Ensures c fun r c' =>
        c.Discovery S A c' ∧ ∀ n, r = .ok n → ∀ access ∈ accesses, c'.Resolves S.host access
  | [], _, _, _ => .pure ⟨.refl, fun _ _ _ ha => nomatch ha⟩
  | access :: accesses, c, hc, hA => by
    refine (registerField_ensures hc (hA access (List.mem_cons_self ..))).bind ?_
      fun e c' hd => ⟨hd.1, fun _ hn => nomatch hn⟩
    rintro added c₁ ⟨hd₁, hfirst⟩
    have hc₁ := hc.reaches hd₁.reaches
    refine (registerFields_ensures hc₁ fun a ha =>
      (hA a (List.mem_cons_of_mem access ha)).of_discovery hd₁).bind ?_
      fun e c' hd => ⟨hd₁.trans hd.1, fun _ hn => nomatch hn⟩
    rintro more c₂ ⟨hd₂, hrest⟩
    refine .pure ⟨hd₁.trans hd₂, fun _ _ a ha => ?_⟩
    rcases List.mem_cons.mp ha with rfl | ha
    · exact hd₂.reaches.extends.resolves hc₁ (hc₁.reaches hd₂.reaches) (hfirst added rfl)
    · exact hrest more rfl a ha

end Catalog

end DeviceLayout
