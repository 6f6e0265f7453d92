import DeviceLayout.Config
import Mathlib.Order.ConditionallyCompleteLattice.Basic
import Mathlib.Order.Lattice.Nat

/-!
# Rounding is exact

`alignUp` adds the alignment less one and clears the bits that the alignment less one has. In
natural numbers, where 0 less one is 0, this holds for the alignments 0 and 1 as well, which ask for
no rounding (`toNat_of_alignUp`). So whatever the alignment, rounding never goes down, goes up by
less than the alignment, and moves nothing twice (`alignUp_again`). Clearing the bits leads back to
a multiple only for a power of two, and then to the least multiple that is not below
(`isLeast_of_alignUp`).

Overflow is checked on the sum on the way and not on the answer (`isSome_alignUp_iff`). This rejects
no multiple that is a word : an alignment that is a power of two divides `2 ^ 32`, so behind a
multiple below `2 ^ 32` there is room for one more alignment (`alignUp_isSome`).
-/

namespace DeviceLayout

variable {v a r : UInt32}

/-! ## Words -/

theorem exists_addChecked {a b : UInt32} (h : a.toNat + b.toNat < 2 ^ 32) :
    ∃ s, addChecked a b = some s :=
  ⟨.ofNat (a.toNat + b.toNat), addChecked_eq_some.mpr (UInt32.toNat_ofNat_of_lt' h)⟩

theorem toNat_sub_one (ha : a.toNat ≠ 0) : (a - 1).toNat = a.toNat - 1 :=
  UInt32.toNat_sub_of_le _ _ (UInt32.le_iff_toNat_le.mpr (Nat.one_le_iff_ne_zero.mpr ha))

/-- Nothing is left of the bits of a mask where they have been cleared. -/
theorem and_not_and (n mask : BitVec 32) : (n &&& ~~~mask) &&& mask = 0#32 := by
  rw [BitVec.and_assoc, BitVec.not_and_self]
  exact BitVec.and_zero

/-- Clearing the bits of `b` takes away the part of `a` that has them. -/
theorem toNat_and_not (a b : UInt32) :
    (a &&& ~~~b).toNat = a.toNat - (a.toNat &&& b.toNat) := by
  obtain ⟨x⟩ := a
  obtain ⟨y⟩ := b
  have hapart : (x &&& ~~~y) &&& (x &&& y) = 0#32 := by
    rw [BitVec.and_comm x y, ← BitVec.and_assoc, and_not_and, BitVec.zero_and]
  have hsplit : x.toNat = (x &&& ~~~y).toNat + (x.toNat &&& y.toNat) := calc
    x.toNat = ((x &&& ~~~y) ||| (x &&& y)).toNat := by
      rw [← BitVec.and_or_distrib_left, BitVec.or_comm, BitVec.or_not_self, BitVec.and_allOnes]
    _ = ((x &&& ~~~y) + (x &&& y)).toNat := by rw [BitVec.add_eq_or_of_and_eq_zero _ _ hapart]
    _ = (x &&& ~~~y).toNat + (x &&& y).toNat := BitVec.toNat_add_of_and_eq_zero hapart
    _ = (x &&& ~~~y).toNat + (x.toNat &&& y.toNat) := by rw [BitVec.toNat_and x y]
  exact Nat.eq_sub_of_add_eq hsplit.symm

theorem isPowerOfTwo_iff {n : UInt32} : isPowerOfTwo n = true ↔ ∃ k, n.toNat = 2 ^ k := by
  have hzero : n = 0 ↔ n.toNat = 0 := UInt32.toNat_inj.symm
  have hand : n &&& (n - 1) = 0 ↔ n.toNat &&& (n - 1).toNat = 0 := by
    rw [← UInt32.toNat_inj, UInt32.toNat_and]
    rfl
  rw [isPowerOfTwo, Bool.and_eq_true, decide_eq_true_iff, decide_eq_true_iff, ne_eq, hzero, hand]
  by_cases hn : n.toNat = 0
  · simp [hn, (Nat.two_pow_pos _).ne]
  · rw [toNat_sub_one hn]
    exact Nat.ne_zero_and_sub_one_eq_zero_iff_isPowerOfTwo

/-! ## Any alignment -/

/-- With an alignment of 0 or 1 there is nothing to round. -/
theorem alignUp_of_le_one (ha : a ≤ 1) : alignUp v a = some v :=
  if_pos ha

/-- There is an answer if the sum on the way is a word. -/
theorem isSome_alignUp_iff : (alignUp v a).isSome ↔ v.toNat + (a.toNat - 1) < 2 ^ 32 := by
  by_cases ha : a ≤ 1
  · have hle : a.toNat ≤ 1 := ha
    have hv := v.toNat_lt
    simp only [alignUp_of_le_one ha, Option.isSome_some, true_iff]
    omega
  · have hlt : ¬ a.toNat ≤ 1 := ha
    rw [alignUp, if_neg ha, Option.isSome_map, addChecked, toNat_sub_one (by omega)]
    split_ifs with hsum
    · exact iff_of_true rfl hsum
    · exact iff_of_false nofun hsum

/-- What `alignUp` answers. -/
theorem toNat_of_alignUp (h : alignUp v a = some r) :
    r.toNat = v.toNat + (a.toNat - 1) - (v.toNat + (a.toNat - 1) &&& (a.toNat - 1)) := by
  by_cases ha : a ≤ 1
  · have hle : a.toNat ≤ 1 := ha
    rw [alignUp_of_le_one ha] at h
    obtain rfl := Option.some.inj h
    simp [Nat.sub_eq_zero_of_le hle]
  · have hlt : ¬ a.toNat ≤ 1 := ha
    rw [alignUp, if_neg ha] at h
    obtain ⟨sum, hsum, rfl⟩ := Option.map_eq_some_iff.mp h
    rw [toNat_and_not, addChecked_eq_some.mp hsum, toNat_sub_one (by omega)]

/-- Rounding up does not go down, even if the alignment is no power of two. -/
theorem le_of_alignUp (h : alignUp v a = some r) : v.toNat ≤ r.toNat := by
  have hr := toNat_of_alignUp h
  have hand := Nat.and_le_right (n := v.toNat + (a.toNat - 1)) (m := a.toNat - 1)
  omega

/-- Rounding up goes up by less than the alignment. -/
theorem le_add_of_alignUp (h : alignUp v a = some r) : r.toNat ≤ v.toNat + (a.toNat - 1) :=
  toNat_of_alignUp h ▸ Nat.sub_le _ _

/-- What is rounded up is not moved by rounding it up again, even if the alignment is no power of
two : adding to bits that are clear does not overflow, and clearing them takes it all back. -/
theorem alignUp_again (h : alignUp v a = some r) : alignUp r a = some r := by
  by_cases ha : a ≤ 1
  · exact alignUp_of_le_one ha
  · rw [alignUp, if_neg ha] at h ⊢
    obtain ⟨sum, -, rfl⟩ := Option.map_eq_some_iff.mp h
    generalize a - 1 = mask
    have hclear := and_not_and sum.toBitVec mask.toBitVec
    have hadd : addChecked (sum &&& ~~~mask) mask = some ((sum &&& ~~~mask) + mask) :=
      addChecked_eq_some.mpr (BitVec.toNat_add_of_and_eq_zero hclear)
    rw [hadd, Option.map_some]
    refine congrArg some (UInt32.toBitVec_inj.mp ?_)
    show ((sum.toBitVec &&& ~~~mask.toBitVec) + mask.toBitVec) &&& ~~~mask.toBitVec =
      sum.toBitVec &&& ~~~mask.toBitVec
    rw [BitVec.add_eq_or_of_and_eq_zero _ _ hclear, BitVec.and_or_distrib_right,
      BitVec.and_assoc, BitVec.and_self, BitVec.and_not_self]
    exact BitVec.or_zero

/-! ## Powers of two -/

/-- A positive number has a least multiple that is not below a given number. -/
theorem exists_isLeast_multiple (n : ℕ) {a : ℕ} (ha : 0 < a) :
    ∃ m, IsLeast {m | n ≤ m ∧ a ∣ m} m := by
  have hne : {m | n ≤ m ∧ a ∣ m}.Nonempty :=
    ⟨n * a, Nat.le_mul_of_pos_right n ha, Nat.dvd_mul_left a n⟩
  exact ⟨_, Nat.sInf_mem hne, fun _ hm => Nat.sInf_le hm⟩

/-- Rounding up to a power of two ends at a multiple of it. -/
theorem dvd_of_alignUp {k : ℕ} (ha : a.toNat = 2 ^ k) (h : alignUp v a = some r) :
    a.toNat ∣ r.toNat := by
  rw [toNat_of_alignUp h, ha, Nat.and_two_pow_sub_one_eq_mod]
  exact Nat.dvd_sub_mod _

/-- What rounding up to a power of two answers is the least multiple that is not below. -/
theorem isLeast_of_alignUp {k : ℕ} (ha : a.toNat = 2 ^ k) (h : alignUp v a = some r) :
    IsLeast {m | v.toNat ≤ m ∧ a.toNat ∣ m} r.toNat := by
  refine ⟨⟨le_of_alignUp h, dvd_of_alignUp ha h⟩, fun m ⟨hle, hdvd⟩ => ?_⟩
  have hpos : 0 < a.toNat := ha ▸ Nat.two_pow_pos k
  have hr := le_add_of_alignUp h
  exact Nat.le_of_lt_add_of_dvd (by omega) (dvd_of_alignUp ha h) hdvd

theorem dvd_two_pow_32 {k : ℕ} (ha : a.toNat = 2 ^ k) : a.toNat ∣ 2 ^ 32 := by
  have hk : k < 32 := (Nat.pow_lt_pow_iff_right Nat.one_lt_two).mp (ha ▸ a.toNat_lt)
  exact ha ▸ Nat.pow_dvd_pow 2 (Nat.le_of_lt hk)

/-- Where some multiple fits into a word, rounding up to a power of two succeeds. The multiple and
`2 ^ 32` are both multiples of the power, so between them there is room for one more. -/
theorem alignUp_isSome {k m : ℕ} (ha : a.toNat = 2 ^ k) (hle : v.toNat ≤ m)
    (hdvd : a.toNat ∣ m) (hm : m < 2 ^ 32) : (alignUp v a).isSome := by
  have hpos : 0 < a.toNat := ha ▸ Nat.two_pow_pos k
  have hroom : m + a.toNat ≤ 2 ^ 32 :=
    Nat.le_of_lt_add_of_dvd (by omega) (Nat.dvd_add hdvd (Nat.dvd_refl _)) (dvd_two_pow_32 ha)
  exact isSome_alignUp_iff.mpr (by omega)

/-! ## Exactness -/

/-- Rounding up to a power of two answers the least multiple that is not below, if that is a word,
and nothing otherwise. Whatever the alignment, there is an answer exactly if the sum on the way is a
word; it is not below, less than the alignment above, or the word itself if there is nothing to
round, and it is not moved again. -/
theorem alignUp_exact (v a : UInt32) :
    ((∃ k, a.toNat = 2 ^ k) → ∃ m, IsLeast {m | v.toNat ≤ m ∧ a.toNat ∣ m} m ∧
      (alignUp v a).map UInt32.toNat = if m < 2 ^ 32 then some m else none) ∧
    ((alignUp v a).isSome ↔ v.toNat + (a.toNat - 1) < 2 ^ 32) ∧
    ∀ r, alignUp v a = some r →
      v.toNat ≤ r.toNat ∧ r.toNat - v.toNat ≤ a.toNat - 1 ∧ (a ≤ 1 → r = v) ∧
        alignUp r a = some r := by
  refine ⟨fun ⟨k, hk⟩ => ?_, isSome_alignUp_iff, fun r hr => ?_⟩
  · obtain ⟨m, hm⟩ := exists_isLeast_multiple v.toNat (a := a.toNat) (hk ▸ Nat.two_pow_pos k)
    refine ⟨m, hm, ?_⟩
    split_ifs with hfits
    · obtain ⟨r, hr⟩ := Option.isSome_iff_exists.mp (alignUp_isSome hk hm.1.1 hm.1.2 hfits)
      rw [hr, Option.map_some, (isLeast_of_alignUp hk hr).unique hm]
    · cases hr : alignUp v a with
      | none => rfl
      | some r => exact absurd ((isLeast_of_alignUp hk hr).unique hm ▸ r.toNat_lt) hfits
  · have hstep := le_add_of_alignUp hr
    refine ⟨le_of_alignUp hr, by omega, fun ha => ?_, alignUp_again hr⟩
    exact Option.some.inj (hr.symm.trans (alignUp_of_le_one ha))

/-- Behind the last multiple of 8 that is a word there is no answer. An alignment of 6 leads from 6
to 10, which is no multiple of 6 but stays. -/
theorem alignUp_exact_last_multiple :
    alignUp 4294967288 8 = some 4294967288 ∧ alignUp 4294967289 8 = none ∧
      alignUp 6 6 = some 10 ∧ alignUp 10 6 = some 10 := by
  have hlast : alignUp 4294967288 8 = some 4294967288 :=
    ((alignUp_exact 4294967281 8).2.2 4294967288 (by decide)).2.2.2
  have hbehind : alignUp 4294967289 8 = none := by
    obtain ⟨m, hm, h⟩ := (alignUp_exact 4294967289 8).1 ⟨3, rfl⟩
    have hleast : IsLeast {m | 4294967289 ≤ m ∧ 8 ∣ m} (2 ^ 32) :=
      ⟨⟨by decide, by decide⟩, fun n ⟨hle, hdvd⟩ => by omega⟩
    rw [hm.unique hleast, if_neg (Nat.lt_irrefl _)] at h
    exact Option.map_eq_none_iff.mp h
  have hsix : alignUp 6 6 = some 10 := by decide
  exact ⟨hlast, hbehind, hsix, ((alignUp_exact 6 6).2.2 10 hsix).2.2.2⟩

end DeviceLayout
