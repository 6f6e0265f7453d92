import DeviceLayout.Proofs.Catalog.Discovered
import DeviceLayout.Proofs.Catalog.Endings
import DeviceLayout.Proofs.History
import Mathlib.Data.Finset.Insert

/-!
# The recorded array types of a registry

A catalog looks an array type up in the list of those that are recorded. It may as well keep a set
of them beside the list, ask the set, and go down a type one level at a time, past the levels that
are known (`IndexedArrays.record`). The two agree : going down appends what is missing, answers its
length, and keeps the set to what is listed (`IndexedArrays.Indexes.record`). A step of a catalog
leaves the array types alone or goes down one type, so list and set agree over whole histories
(`IndexedArrays.Indexes.reaches`).

The levels of a recorded array type are recorded (`Catalog.ClosedArrays`). Going down a type, all is
known from the first known level on, so what is missing is an outermost run of the levels
(`Catalog.ClosedArrays.exists_known`). Recording can still fail at the class that the type mentions,
but only after the levels were appended, and looking for that class records no array types
(`Catalog.recordArray_appends`). `Registry.arrayTypes_after` puts this together for every history.
-/

open Relation DeviceLayout.Action

namespace DeviceLayout

/-! ## A list of array types and a set of them -/

/-- Array types in the order they were recorded, and a set of them. -/
structure IndexedArrays where
  listed : List HostType := []
  index : Finset HostType := ∅

namespace IndexedArrays

/-- Record one array type, unless it is in the set. The answer is how many are new. -/
def add (s : IndexedArrays) (t : HostType) : IndexedArrays × Nat :=
  if t ∈ s.index then (s, 0) else (⟨s.listed ++ [t], insert t s.index⟩, 1)

/-- Go down a type level by level and record each that is an array type. The answer is how many
are new. -/
def record (s : IndexedArrays) : HostType → IndexedArrays × Nat
  | .array e =>
    let (s', first) := s.add (.array e)
    let (s'', more) := s'.record e
    (s'', first + more)
  | _ => (s, 0)

/-- Record types one after another. -/
def recordAll (s : IndexedArrays) (ts : List HostType) : IndexedArrays :=
  ts.foldl (fun s t => (s.record t).1) s

/-- The list is the catalog's, and the set holds what is in it. -/
structure Indexes (s : IndexedArrays) (c : Catalog) : Prop where
  listed_eq : s.listed = c.arrays
  mem_index_iff : ∀ t, t ∈ s.index ↔ t ∈ c.arrays

variable {S : Setting} {s : IndexedArrays} {c c' : Catalog}

theorem Indexes.empty : Indexes {} {} :=
  ⟨rfl, fun _ => by simp⟩

theorem Indexes.of_eq (h : s.Indexes c) (he : c'.arrays = c.arrays) : s.Indexes c' where
  listed_eq := he ▸ h.listed_eq
  mem_index_iff := he ▸ h.mem_index_iff

end IndexedArrays

namespace Catalog

variable {S : Setting} {c c' : Catalog} {t e : HostType}

/-! ## What is missing of a type -/

theorem missingArrays_of_known (h : .array e ∈ c.arrays) :
    c.missingArrays (.array e) = c.missingArrays e :=
  List.filter_cons_of_neg (by simpa using h)

theorem missingArrays_of_new (h : .array e ∉ c.arrays) :
    c.missingArrays (.array e) = .array e :: c.missingArrays e :=
  List.filter_cons_of_pos (by simpa using h)

/-- Recording an array type does not change what is missing below it. -/
theorem missingArrays_append_array (c : Catalog) (e : HostType) :
    missingArrays { c with arrays := c.arrays ++ [.array e] } e = c.missingArrays e := by
  refine List.filter_congr fun level hlevel => ?_
  have hne : level ≠ HostType.array e := by
    rintro rfl
    exact (List.nodup_cons.mp (HostType.arrayLevels_nodup (.array e))).1 hlevel
  simp [hne]

theorem not_mem_of_mem_missingArrays {level : HostType} (h : level ∈ c.missingArrays t) :
    level ∉ c.arrays := by
  simpa using (List.mem_filter.mp h).2

/-- From the first level that is recorded on, all are: what is missing is an outermost run. -/
theorem ClosedArrays.exists_known (h : c.ClosedArrays) (t : HostType) :
    ∃ known, t.arrayLevels = c.missingArrays t ++ known ∧ ∀ level ∈ known, level ∈ c.arrays := by
  induction t with
  | primitive p => exact ⟨[], rfl, fun _ hl => nomatch hl⟩
  | named n => exact ⟨[], rfl, fun _ hl => nomatch hl⟩
  | array e ih =>
    by_cases hmem : .array e ∈ c.arrays
    · have hlevels := h _ hmem
      rw [missingArrays_eq_nil_iff.mpr hlevels]
      exact ⟨_, rfl, hlevels⟩
    · obtain ⟨known, hsplit, hknown⟩ := ih
      rw [missingArrays_of_new hmem]
      exact ⟨known, congrArg (HostType.array e :: ·) hsplit, hknown⟩

/-! ## Recording a type -/

/-- Discovery that may add no array types adds none. -/
theorem Discovery.arrays_eq (h : c.Discovery S .noTypes c') : c'.arrays = c.arrays := by
  induction h with
  | refl => rfl
  | tail _ hstep ih =>
    obtain hsame | ⟨t, hnone, hadded⟩ := hstep.arrays_cases
    · exact hsame.trans ih
    · have hlevels : t.arrayLevels = [] := List.eq_nil_iff_forall_not_mem.mpr hnone
      rw [hadded, missingArrays, hlevels, List.filter_nil, List.append_nil, ih]

/-- Recording a type appends the levels that are missing, even where it fails, and answers how
many they are. It fails only if there are any, at a class that the host does not resolve. -/
theorem recordArray_appends (hc : c.WellFormed) (t : HostType) :
    (recordArray S t).Ensures c fun res c' =>
      c'.arrays = c.arrays ++ c.missingArrays t ∧ match res with
        | .ok n => n = (c.missingArrays t).length
        | .error _ => c.missingArrays t ≠ [] ∧ ¬ t.RefersTo S.host.Resolves := by
  refine .get_bind ?_
  dsimp only
  split
  · next hnone =>
    rw [List.isEmpty_iff.mp hnone]
    exact .pure ⟨(List.append_nil _).symm, rfl⟩
  · next hsome =>
    have hc₁ : Catalog.WellFormed { c with arrays := c.arrays ++ c.missingArrays t } := { hc with }
    have hbring := (bringIn_ensures (S := S) (A := .noTypes) (t := t) hc₁ fun _ _ _ _ _ _ =>
      trivial).and (bringIn_refused hc₁)
    refine .tellAll_bind (.modify_bind (hbring.bind ?_ ?_))
    · rintro ⟨⟩ c' ⟨⟨hd, -⟩, -⟩
      exact .pure ⟨hd.arrays_eq, rfl⟩
    · rintro e c' ⟨⟨hd, -⟩, hrefused⟩
      exact ⟨hd.arrays_eq, mt List.isEmpty_iff.mpr hsome, (hrefused e rfl).2⟩

end Catalog

/-! ## The list and the set agree -/

namespace IndexedArrays

variable {S : Setting} {s : IndexedArrays} {c c' : Catalog} {t : HostType}

/-- Going down a type appends what is missing of it, keeps the set to what is listed, and answers
how many were missing. A level that is new is in the set from then on, and no level below it is the
same. -/
theorem Indexes.record (h : s.Indexes c) (t : HostType) :
    (s.record t).1.Indexes { c with arrays := c.arrays ++ c.missingArrays t } ∧
      (s.record t).2 = (c.missingArrays t).length := by
  induction t generalizing s c with
  | primitive p => exact ⟨h.of_eq (List.append_nil _), rfl⟩
  | named n => exact ⟨h.of_eq (List.append_nil _), rfl⟩
  | array e ih =>
    by_cases hmem : .array e ∈ c.arrays
    · have hadd : s.add (.array e) = (s, 0) := if_pos ((h.mem_index_iff _).mpr hmem)
      obtain ⟨hindexes, hcount⟩ := ih h
      rw [Catalog.missingArrays_of_known hmem, IndexedArrays.record, hadd]
      exact ⟨hindexes, (Nat.zero_add _).trans hcount⟩
    · let s' : IndexedArrays := ⟨s.listed ++ [.array e], insert (.array e) s.index⟩
      have hadd : s.add (.array e) = (s', 1) := if_neg (mt (h.mem_index_iff _).mp hmem)
      have hs' : s'.Indexes { c with arrays := c.arrays ++ [.array e] } :=
        ⟨congrArg (· ++ [.array e]) h.listed_eq, fun t => by simp [s', h.mem_index_iff, or_comm]⟩
      obtain ⟨hindexes, hcount⟩ := ih hs'
      rw [Catalog.missingArrays_append_array] at hindexes hcount
      rw [Catalog.missingArrays_of_new hmem, IndexedArrays.record, hadd]
      refine ⟨hindexes.of_eq (List.append_cons _ _ _), ?_⟩
      rw [List.length_cons, ← hcount, Nat.add_comm]

/-- A step of the catalog is matched by going down one type, or by nothing. -/
theorem Indexes.change (h : s.Indexes c) (hstep : c.Change S c') :
    ∃ recorded, (s.recordAll recorded).Indexes c' := by
  obtain hsame | ⟨t, hadded⟩ := hstep.arrays_cases
  · exact ⟨[], h.of_eq hsame⟩
  · exact ⟨[t], (h.record t).1.of_eq hadded⟩

theorem Indexes.reaches (h : s.Indexes c) (hd : c.Reaches S c') :
    ∃ recorded, (s.recordAll recorded).Indexes c' := by
  induction hd with
  | refl => exact ⟨[], h⟩
  | tail _ hstep ih =>
    obtain ⟨before, hbefore⟩ := ih
    obtain ⟨last, hlast⟩ := hbefore.change hstep
    refine ⟨before ++ last, ?_⟩
    rwa [recordAll, List.foldl_append]

end IndexedArrays

namespace Registry

variable {S : Setting} {r : Registry} {t : HostType}

/-! ## Every history -/

/-- What a request to record `t` leaves behind : of the levels of `t`, the outer ones `new` are not
recorded before it, and the others are. -/
structure RecordsLevels (S : Setting) (r : Registry) (t : HostType) (new known : List HostType)
    (o : Outcome Registry Reply) : Prop where
  levels_eq : t.arrayLevels = new ++ known
  not_mem_of_new : ∀ level ∈ new, level ∉ r.catalog.arrays
  mem_of_known : ∀ level ∈ known, level ∈ r.catalog.arrays
  arrays_eq : o.state.catalog.arrays = r.catalog.arrays ++ new
  reply_eq : ∀ reply, o.result = .ok reply → reply = .count new.length
  /-- It succeeds if nothing is new, or the host resolves the class that the type mentions. -/
  succeeds : new = [] ∨ t.RefersTo S.host.Resolves → ∃ reply, o.result = .ok reply
  /-- Going down the type with a set of what is recorded does the same. -/
  indexed : ∀ s : IndexedArrays, s.Indexes r.catalog →
    (s.record t).1.Indexes o.state.catalog ∧ (s.record t).2 = new.length

/-- The list of array types of a registry : what is in it, and what becomes of it. -/
structure SoundArrayTypes (S : Setting) (r : Registry) : Prop where
  isArray : ∀ t ∈ r.catalog.arrays, t.isArray = true
  nodup : r.catalog.arrays.Nodup
  element_mem : ∀ t ∈ r.catalog.arrays, ∀ e, t.element? = some e → e.isArray = true →
    e ∈ r.catalog.arrays
  /-- A set that is kept beside the list from the beginning holds what is listed. -/
  indexed : ∃ recorded, (IndexedArrays.recordAll {} recorded).Indexes r.catalog
  /-- Whether or not it succeeds, recording a type appends an outermost run of its levels. -/
  records : ∀ t, ∃ new known,
    RecordsLevels S r t new known (((Request.recordArray t).serve S).run r)
  /-- Requests append array types, and remove and move none. -/
  later : ∀ requests, r.catalog.arrays <+: (afterFrom S r requests).catalog.arrays ∧
    ∀ s : IndexedArrays, s.Indexes r.catalog →
      ∃ recorded, (s.recordAll recorded).Indexes (afterFrom S r requests).catalog

theorem recordsLevels_of_closed (hr : r.WellFormed S) (hclosed : r.catalog.ClosedArrays)
    (t : HostType) : ∃ new known,
      RecordsLevels S r t new known (((Request.recordArray t).serve S).run r) := by
  obtain ⟨known, hsplit, hknown⟩ := hclosed.exists_known t
  have hserve : ((Request.recordArray t).serve S).Ensures r fun res r' =>
      r'.catalog.arrays = r.catalog.arrays ++ r.catalog.missingArrays t ∧ match res with
        | .ok reply => reply = .count (r.catalog.missingArrays t).length
        | .error _ => r.catalog.missingArrays t ≠ [] ∧ ¬ t.RefersTo S.host.Resolves := by
    refine .map (.onPart ((Catalog.recordArray_appends hr.catalog t).mono ?_))
    rintro (e | n) c' ⟨harrays, hres⟩
    · exact ⟨harrays, hres⟩
    · exact ⟨harrays, congrArg Reply.count hres⟩
  obtain ⟨harrays, hres⟩ := hserve
  refine ⟨r.catalog.missingArrays t, known, ?_⟩
  constructor
  case levels_eq => exact hsplit
  case not_mem_of_new => exact fun _ => Catalog.not_mem_of_mem_missingArrays
  case mem_of_known => exact hknown
  case arrays_eq => exact harrays
  case reply_eq =>
    intro reply hreply
    rwa [hreply] at hres
  case succeeds =>
    intro hgood
    cases hresult : (((Request.recordArray t).serve S).run r).result with
    | ok reply => exact ⟨reply, rfl⟩
    | error e =>
      rw [hresult] at hres
      exact hgood.elim (absurd · hres.1) (absurd · hres.2)
  case indexed => exact fun s hs => ⟨(hs.record t).1.of_eq harrays, (hs.record t).2⟩

/-- Array types as such are recorded by any history, each once. -/
theorem plainArrays_after (S : Setting) (history : List Request) :
    (after S history).catalog.PlainArrays .arrayTypes :=
  (Catalog.PlainArrays.empty .arrayTypes).reaches
    (afterFrom_leads S history {} (.empty S)).catalog

theorem closedArrays_after (S : Setting) (history : List Request) :
    (after S history).catalog.ClosedArrays :=
  Catalog.ClosedArrays.reaches (c := {}) (fun _ h => nomatch h)
    (afterFrom_leads S history {} (.empty S)).catalog

/-- The array types after any history, whatever the host, and whether or not the requests
succeeded. -/
theorem arrayTypes_after (S : Setting) (history : List Request) :
    SoundArrayTypes S (after S history) := by
  have hr := wellFormed_after S history
  have hplain := plainArrays_after S history
  have hclosed := closedArrays_after S history
  have hsteps := (afterFrom_leads S history {} (.empty S)).catalog
  constructor
  case isArray => exact hplain.inside
  case nodup => exact hplain.nodup
  case element_mem =>
    rintro (p | n | e) ht _ he harray
    · cases he
    · cases he
    · obtain rfl := Option.some.inj he
      exact hclosed _ ht _ (List.mem_cons_of_mem _ (HostType.mem_arrayLevels_self harray))
  case indexed => exact IndexedArrays.Indexes.empty.reaches hsteps
  case records => exact recordsLevels_of_closed hr hclosed
  case later =>
    intro requests
    have hlater := (afterFrom_leads S requests _ hr).catalog
    exact ⟨hlater.extends.arrays_prefix, fun s hs => hs.reaches hlater⟩

/-- `int[]` and then `int[][]` : only the outer level of the second is new. -/
example : (after .pair [.recordArray (.array (.primitive .int)),
      .recordArray (.array (.array (.primitive .int)))]).catalog.arrays =
    [.array (.primitive .int), .array (.array (.primitive .int))] := by decide

end Registry

end DeviceLayout
