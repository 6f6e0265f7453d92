import DeviceLayout.Error
import DeviceLayout.Order

/-!
# Layout settings

Settings change how much room a layout takes, never what is laid out. A configuration is
accepted (`LayoutConfig.validate`) when its alignment is a power of two and its header leaves
room for one field of the widest kind in a root class.

Sizes and offsets are 32-bit words. `addChecked` adds two of them and fails instead of
wrapping; `alignUp` rounds a word up to a multiple of an alignment by adding the alignment
less one and clearing the low bits, and fails when that sum does not fit. The mask clears the
low bits only when the alignment is a power of two; 0 and 1 ask for no rounding.
-/

namespace DeviceLayout

/-! ## Rounding in 32 bits -/

/-- The sum of two words, if it is a word. -/
def addChecked (a b : UInt32) : Option UInt32 :=
  if a.toNat + b.toNat < UInt32.size then some (a + b) else none

/-- `value` rounded up to a multiple of `alignment`, if the sum on the way is a word. -/
def alignUp (value alignment : UInt32) : Option UInt32 :=
  if alignment ≤ 1 then some value
  else (addChecked value (alignment - 1)).map fun sum => sum &&& ~~~(alignment - 1)

/-- Whether a word is a power of two: it has a single bit set. -/
def isPowerOfTwo (n : UInt32) : Bool :=
  n ≠ 0 && n &&& (n - 1) = 0

/-- A checked sum is the sum of the numbers, and there is none if no word has this value. -/
theorem addChecked_eq_some {a b s : UInt32} :
    addChecked a b = some s ↔ s.toNat = a.toNat + b.toNat := by
  have hsize : UInt32.size = 2 ^ 32 := rfl
  unfold addChecked
  constructor
  · intro h
    split at h
    · cases h
      rw [UInt32.toNat_add]
      omega
    · cases h
  · intro h
    have hs := s.toNat_lt
    rw [if_pos (by omega)]
    congr 1
    apply UInt32.toNat.inj
    rw [UInt32.toNat_add]
    omega

/-! ## Settings -/

/-- The settings of one compile run. -/
structure LayoutConfig where
  /-- Bytes reserved at the start of every instance of a root class. -/
  headerSize : UInt32 := 0
  /-- Instance sizes are rounded up to this. -/
  objectAlignment : UInt32 := 8
  /-- Whether every field is aligned to its own size. -/
  alignFields : Bool := true
  /-- The order in which fields are placed. -/
  packing : Packing := .sizeDescending
  deriving DecidableEq, Repr

/-- The size of the widest primitive. -/
def widestField : UInt32 := 8

namespace LayoutConfig

/-- Whether one widest field fits after the header. -/
def leavesRoom (c : LayoutConfig) : Bool :=
  ((addChecked c.headerSize widestField).bind fun stop => alignUp stop c.objectAlignment).isSome

/-- The configuration itself if it is acceptable; a bad alignment is reported before a bad
header. -/
def validate (c : LayoutConfig) : Except LayoutError LayoutConfig :=
  if !isPowerOfTwo c.objectAlignment then .error (.badAlignment c.objectAlignment)
  else if !c.leavesRoom then .error (.noRoom c.headerSize)
  else .ok c

end LayoutConfig

end DeviceLayout
