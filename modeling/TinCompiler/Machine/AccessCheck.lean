import TinCompiler.Machine.Accesses

/-!
# The check of an access

`can_access_memory` adds the size to the unsigned distance from a region.  The sum wraps around
for a range that begins shortly before the region, so such a range is accepted if it ends in the
region or in front of it.  Otherwise the check is exact.
-/

namespace TinCompiler

namespace VirtualMachine

variable (vm : VirtualMachine) (m : Machine) {ptr : BitVec 64} {size : ℤ}

/-- The regions are pairwise disjoint and lie in the address space without wrapping. -/
structure RegionsSound : Prop where
  fits : ∀ region ∈ vm.regions m, region.1 < 2 ^ 64 ∧ region.1 + region.2 ≤ 2 ^ 64
  disjoint : (vm.regions m).Pairwise fun r r' => r.1 + r.2 ≤ r'.1 ∨ r'.1 + r'.2 ≤ r.1

/-- All of `[ptr, ptr + size)` lies in the region. -/
def LiesIn (region : ℕ × ℕ) (ptr : BitVec 64) (size : ℤ) : Prop :=
  (region.1 : ℤ) ≤ ptr.toNat ∧ ptr.toNat + size ≤ region.1 + region.2

instance (region : ℕ × ℕ) (ptr : BitVec 64) (size : ℤ) : Decidable (LiesIn region ptr size) :=
  inferInstanceAs (Decidable (_ ∧ _))

/-- The region begins at one of the next `size` bytes behind `ptr`, and the range does not go
beyond its end. -/
def WrapsInto (region : ℕ × ℕ) (ptr : BitVec 64) (size : ℤ) : Prop :=
  ∃ before : ℕ, 0 < before ∧ before ≤ size ∧ size - before ≤ region.2 ∧
    ptr + BitVec.ofNat 64 before = BitVec.ofNat 64 region.1

theorem canAccessMemory_iff : vm.canAccessMemory m ptr size = true ↔
    ∃ region ∈ vm.regions m, inRange region.1 region.2 ptr size = true := by
  simp only [canAccessMemory, regions, Bool.or_eq_true, List.any_eq_true, List.mem_cons,
    exists_eq_or_imp, or_assoc]

/-- The unsigned distance from the region is accepted in the region and shortly before it. -/
theorem inRange_iff {base max k : ℕ} (hbase : base < 2 ^ 64) (hmax : base + max ≤ 2 ^ 64)
    (hpos : 0 < k) (hlt : k < 2 ^ 31) :
    inRange base max ptr k = true ↔ LiesIn (base, max) ptr k ∨ WrapsInto (base, max) ptr k := by
  have hptr := ptr.isLt
  have hsum : (ptr - BitVec.ofNat 64 base + BitVec.ofInt 64 k).toNat =
      ((2 ^ 64 - base + ptr.toNat) % 2 ^ 64 + k) % 2 ^ 64 := by
    rw [BitVec.ofInt_natCast, BitVec.toNat_add, BitVec.toNat_sub, BitVec.toNat_ofNat,
      BitVec.toNat_ofNat, Nat.mod_eq_of_lt hbase, Nat.mod_eq_of_lt (by omega : k < 2 ^ 64)]
  have hwraps : WrapsInto (base, max) ptr k ↔ ∃ before : ℕ, 0 < before ∧ before ≤ k ∧
      k - before ≤ max ∧ (ptr.toNat + before) % 2 ^ 64 = base := by
    refine exists_congr fun before => and_congr_right fun _ => ?_
    rw [← BitVec.toNat_inj, BitVec.toNat_add, BitVec.toNat_ofNat, BitVec.toNat_ofNat,
      Nat.mod_eq_of_lt hbase]
    constructor
    · rintro ⟨hle, hends, hback⟩
      exact ⟨by omega, by dsimp only at hends; omega, by omega⟩
    · rintro ⟨hle, hends, hback⟩
      exact ⟨by omega, by dsimp only; omega, by omega⟩
  rw [inRange, decide_eq_true_eq, hsum, hwraps, LiesIn]
  clear hsum hwraps
  dsimp only
  constructor
  · intro hle
    by_cases hwrap : (2 ^ 64 - base + ptr.toNat) % 2 ^ 64 + k < 2 ^ 64
    · exact .inl ⟨by omega, by omega⟩
    · exact .inr ⟨2 ^ 64 - (2 ^ 64 - base + ptr.toNat) % 2 ^ 64, by omega, by omega, by omega,
        by omega⟩
  · rintro (⟨hlow, hhigh⟩ | ⟨before, hpos, hle, hends, hback⟩)
    · omega
    · omega

/-- With a size that is positive the check grants exactly the ranges in a region; with any other
it grants nothing outside of them. -/
def ChecksExactly (ptr : BitVec 64) (size : ℤ) : Prop :=
  (0 < size → (vm.canAccessMemory m ptr size = true ↔
    ∃ region ∈ vm.regions m, LiesIn region ptr size)) ∧
  (size ≤ 0 → vm.canAccessMemory m ptr size = true →
    ∀ a : ℕ, ptr.toNat ≤ a → a < ptr.toNat + size →
      ∃ region ∈ vm.regions m, region.1 ≤ a ∧ a < region.1 + region.2)

/-- The check is exact unless a range outside of the regions begins shortly before one. -/
theorem checksExactly_iff (hregions : vm.RegionsSound m) (ptr : BitVec 64) {size : ℤ}
    (hlt : size < 2 ^ 31) : vm.ChecksExactly m ptr size ↔
      (∃ region ∈ vm.regions m, LiesIn region ptr size) ∨
        ∀ region ∈ vm.regions m, ¬ WrapsInto region ptr size := by
  by_cases hpos : 0 < size
  · obtain ⟨k, rfl⟩ := Int.eq_ofNat_of_zero_le (Int.le_of_lt hpos)
    have hgranted : vm.canAccessMemory m ptr k = true ↔ ∃ region ∈ vm.regions m,
        LiesIn region ptr k ∨ WrapsInto region ptr k := by
      rw [canAccessMemory_iff]
      refine exists_congr fun region => and_congr_right fun hmem => ?_
      obtain ⟨hbase, hmax⟩ := hregions.fits region hmem
      exact inRange_iff hbase hmax (by omega) (by omega)
    constructor
    · rintro ⟨hexact, -⟩
      by_contra hno
      rw [not_or, not_forall] at hno
      obtain ⟨hoff, region, hwraps⟩ := hno
      rw [Classical.not_imp, not_not] at hwraps
      exact hoff ((hexact hpos).mp (hgranted.mpr ⟨region, hwraps.1, .inr hwraps.2⟩))
    · intro h
      refine ⟨fun _ => ⟨fun hgrant => ?_, ?_⟩, fun hle => absurd hpos (Int.not_lt.mpr hle)⟩
      · obtain ⟨region, hmem, hlies | hwraps⟩ := hgranted.mp hgrant
        · exact ⟨region, hmem, hlies⟩
        · exact h.resolve_right fun hnone => hnone region hmem hwraps
      · rintro ⟨region, hmem, hlies⟩
        exact hgranted.mpr ⟨region, hmem, .inl hlies⟩
  · -- the range is empty, and it begins in front of nothing
    refine iff_of_true ⟨fun h => absurd h hpos, fun _ _ a hlow hhigh => ?_⟩ (.inr ?_)
    · omega
    · rintro region - ⟨before, hbefore, hle, -⟩
      omega

/-- The machine with an allocation of 16 bytes behind the stack. -/
def allocated : Machine := { startMachine (ofPieces []) with allocations := [(0x200000, 16)] }

theorem regionsSound_allocated : (ofPieces []).RegionsSound allocated :=
  ⟨by decide, by decide⟩

theorem checksExactly_allocated : (ofPieces []).ChecksExactly allocated 0x200008 8 :=
  ((ofPieces []).checksExactly_iff allocated regionsSound_allocated 0x200008 (by decide)).mpr
    (.inl ⟨(0x200000, 16), by decide, by decide⟩)

/-- The byte in front of the allocation is granted. -/
theorem not_checksExactly : ¬ ∀ (vm : VirtualMachine) (m : Machine), vm.RegionsSound m →
    ∀ (ptr : BitVec 64) (size : ℤ), size < 2 ^ 31 → vm.ChecksExactly m ptr size := by
  intro hall
  have hexact := hall (ofPieces []) allocated regionsSound_allocated 0x1fffff 1 (by decide)
  obtain ⟨region, hmem, hlies⟩ := (hexact.1 (by decide)).mp (by decide)
  have hnone : ∀ region ∈ (ofPieces []).regions allocated, ¬ LiesIn region 0x1fffff 1 := by decide
  exact hnone region hmem hlies

end VirtualMachine

end TinCompiler
