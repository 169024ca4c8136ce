import Mathlib.Data.Nat.Notation

/-!
# A byte-addressed, little-endian memory

A memory is a total function from addresses to bytes.  `store` writes the low bytes of
a word and `load` reads a number of bytes as a word with zeros above.  The rules are the
usual ones: a load sees the last store to its bytes (`load_store_same`) and does not see
stores elsewhere (`load_store_disjoint`).
-/

/-- The memory of a machine with words of `w` bits. -/
abbrev ByteMemory := ℕ → BitVec 8

namespace ByteMemory

variable {w : ℕ}

/-- The `n` bytes at `addr`, the lowest first. -/
def load (mem : ByteMemory) (addr : ℕ) : ℕ → BitVec w
  | 0 => 0
  | n + 1 => ((mem (addr + n)).setWidth w <<< (8 * n)) ||| load mem addr n

/-- Write the `n` low bytes of `v` at `addr`. -/
def store (mem : ByteMemory) (addr n : ℕ) (v : BitVec w) : ByteMemory := fun a =>
  if addr ≤ a ∧ a < addr + n then (v >>> (8 * (a - addr))).setWidth 8 else mem a

/-- Write `n` zero bytes at `addr`. -/
def zero (mem : ByteMemory) (addr n : ℕ) : ByteMemory := fun a =>
  if addr ≤ a ∧ a < addr + n then 0 else mem a

/-- `n` bytes are moved as a whole. -/
def move (mem : ByteMemory) (dst src n : ℕ) : ByteMemory := fun a =>
  if dst ≤ a ∧ a < dst + n then mem (src + (a - dst)) else mem a

/-- Write bytes one after the other. -/
def write (mem : ByteMemory) (addr : ℕ) (bytes : List (BitVec 8)) : ByteMemory := fun a =>
  if addr ≤ a then bytes.getD (a - addr) (mem a) else mem a

theorem getLsbD_load (mem : ByteMemory) (addr n j : ℕ) :
    (load mem addr n : BitVec w).getLsbD j =
      (decide (j < 8 * n) && decide (j < w) && (mem (addr + j / 8)).getLsbD (j % 8)) := by
  induction n with
  | zero => simp [load]
  | succ n ih =>
      simp only [load, BitVec.getLsbD_or, BitVec.getLsbD_shiftLeft, BitVec.getLsbD_setWidth, ih]
      rcases Nat.lt_trichotomy (j / 8) n with hlt | heq | hgt
      · have h1 : j < 8 * n := by omega
        have h2 : j < 8 * (n + 1) := by omega
        simp [h1, h2]
      · subst heq
        have h1 : ¬ j < 8 * (j / 8) := by omega
        have h2 : j < 8 * (j / 8 + 1) := by omega
        have h3 : j - 8 * (j / 8) = j % 8 := by omega
        by_cases hw : j < w
        · have h4 : j % 8 < w := by omega
          simp [h1, h2, h3, h4, hw]
        · simp [hw]
      · have h1 : ¬ j < 8 * n := by omega
        have h2 : ¬ j < 8 * (n + 1) := by omega
        have h3 : 8 ≤ j - 8 * n := by omega
        have h4 : (mem (addr + n)).getLsbD (j - 8 * n) = false := BitVec.getLsbD_of_ge _ _ h3
        simp [h1, h2, h4]

/-- A load into a wider word has zeros above. -/
theorem load_eq_setWidth (mem : ByteMemory) (addr n w' : ℕ) (hn : 8 * n ≤ w') :
    (load mem addr n : BitVec w) = (load mem addr n : BitVec w').setWidth w := by
  apply BitVec.eq_of_getLsbD_eq
  intro j hj
  rw [BitVec.getLsbD_setWidth, getLsbD_load, getLsbD_load]
  by_cases hlow : j < 8 * n
  · have hw' : j < w' := by omega
    simp [hlow, hj, hw']
  · simp [hlow]

theorem load_congr {mem mem' : ByteMemory} {addr n : ℕ}
    (hsame : ∀ i, i < n → mem (addr + i) = mem' (addr + i)) :
    (load mem addr n : BitVec w) = load mem' addr n := by
  induction n with
  | zero => rfl
  | succ n ih =>
      rw [load, load, hsame n (Nat.lt_succ_self n), ih fun i hi => hsame i (Nat.lt_succ_of_lt hi)]

theorem store_apply_of_not_mem {mem : ByteMemory} {addr n a : ℕ} {v : BitVec w}
    (ha : ¬ (addr ≤ a ∧ a < addr + n)) : store mem addr n v a = mem a := by
  rw [store, if_neg ha]

theorem load_store_same (mem : ByteMemory) (addr n : ℕ) (v : BitVec w) :
    load (store mem addr n v) addr n = (v.setWidth (8 * n)).setWidth w := by
  apply BitVec.eq_of_getLsbD_eq
  intro j hj
  rw [getLsbD_load]
  by_cases hn : j < 8 * n
  · have hmem : addr ≤ addr + j / 8 ∧ addr + j / 8 < addr + n := by omega
    have hbyte : addr + j / 8 - addr = j / 8 := by omega
    have hbit : 8 * (j / 8) + j % 8 = j := by omega
    have hlow : j % 8 < 8 := Nat.mod_lt _ (by decide)
    simp [store, hmem, hbyte, hbit, hn, hj, hlow]
  · simp [hn]

theorem load_store_disjoint (mem : ByteMemory) {addr n addr' n' : ℕ} (v : BitVec w)
    (hdisjoint : addr' + n' ≤ addr ∨ addr + n ≤ addr') :
    (load (store mem addr n v) addr' n' : BitVec w) = load mem addr' n' := by
  refine load_congr fun i hi => store_apply_of_not_mem ?_
  omega

/-- Bytes that are loaded and stored elsewhere. -/
theorem store_load_apply (mem mem' : ByteMemory) (addr addr' : ℕ) {n i : ℕ} (hi : i < n)
    (hw : 8 * n ≤ w) : store mem addr n (load mem' addr' n : BitVec w) (addr + i) = mem' (addr' + i) := by
  rw [store, if_pos (by omega), Nat.add_sub_cancel_left]
  apply BitVec.eq_of_getLsbD_eq
  intro j hj
  have hdiv : (8 * i + j) / 8 = i := by omega
  have hmod : (8 * i + j) % 8 = j := by omega
  have hlow : 8 * i + j < 8 * n := by omega
  have hwide : 8 * i + j < w := by omega
  rw [BitVec.getLsbD_setWidth, BitVec.getLsbD_ushiftRight, getLsbD_load, hdiv, hmod]
  simp [hj, hlow, hwide]

/-- A store of a full word is read back whole. -/
theorem load_store_word (mem : ByteMemory) (addr : ℕ) {n : ℕ} (hw : 8 * n = w) (v : BitVec w) :
    load (store mem addr n v) addr n = v := by
  rw [load_store_same]
  subst hw
  simp

/-- Reading fewer bytes of a stored word gives its low bytes. -/
theorem load_store_low (mem : ByteMemory) (addr : ℕ) {n m : ℕ} (hle : n ≤ m) (v : BitVec w) :
    load (store mem addr m v) addr n = (v.setWidth (8 * n)).setWidth w := by
  rw [← load_store_same mem addr n v]
  refine load_congr fun i hi => ?_
  have h1 : addr ≤ addr + i ∧ addr + i < addr + m := by omega
  have h2 : addr ≤ addr + i ∧ addr + i < addr + n := by omega
  rw [store, store, if_pos h1, if_pos h2]

end ByteMemory
