import TinCompiler.Machine.Heap

/-!
# Files

The natives `read_file` and `write_file` of `run_native_call` on a disk, which maps the names of
files to their bytes.  Opening a file for writing empties it.  What `read_file` gives back is
`readFile_readsBack`; what `write_file` leaves is never more than the empty file
(`writtenBytes_eq_nil`), so it keeps its promise for no bytes only (`fileKept_iff`).
-/

/-- The `n` bytes at an address. -/
def ByteMemory.bytes (mem : ByteMemory) (addr n : ℕ) : List (BitVec 8) :=
  (List.range n).map fun i => mem (addr + i)

namespace TinCompiler

/-- The files by their names, and the names that can be opened for writing. -/
structure Disk (Path : Type) where
  files : Path → Option (List (BitVec 8))
  writable : Path → Bool

namespace Process

def load (p : Process) (ptr : BitVec 64) (size : ℕ) : BitVec 64 :=
  p.machine.memory.load ptr.toNat size

/-- Where a native puts its result. -/
def resultPtr (p : Process) : BitVec 64 := p.machine.registers .sp - 16 - 8

/-- The result of the native that `p` was about to call. -/
def returned (p p' : Process) (size : ℕ) : BitVec 64 := p'.load p.resultPtr size

/-- The last parameter of `write_file`. -/
def writeSize (p : Process) : ℤ := ((p.arg 16 4).setWidth 32 : BitVec 32).toInt

/-- What `write_file` has written when it closes the file: `file.write(out_data, out_size)` stands
behind `out_size < 0`, and a negative count is no byte. -/
def writtenBytes (p : Process) : List (BitVec 8) :=
  if p.writeSize < 0 then p.machine.memory.bytes (p.arg 8 8).toNat p.writeSize.toNat else []

theorem writtenBytes_eq_nil (p : Process) : p.writtenBytes = [] := by
  unfold writtenBytes
  split
  · next hneg =>
      rw [Int.toNat_of_nonpos hneg.le]
      rfl
  · rfl

end Process

namespace System

section Natives

variable {Path : Type} [DecidableEq Path] (sys : System) (name : ByteMemory → BitVec 64 → Path)
  (disk : Disk Path) (p : Process)

/-- The system with the files of a disk; `name` reads the name at an address. -/
def onDisk : System :=
  { sys with
    openFile := fun p ptr => (disk.files (name p.machine.memory ptr)).map fun bytes =>
      { size := BitVec.ofNat 32 bytes.length, bytes := bytes }
    createFile := fun p ptr => disk.writable (name p.machine.memory ptr) }

/-- The name that the native is called with. -/
def path : Path := name p.machine.memory (p.arg 0 8)

/-- The disk behind a native. -/
def diskAfter : NativeCalls → Disk Path
  | .writeFile =>
      if p.arg 0 8 ≠ 0 ∧ disk.writable (path name p) then
        { disk with files := Function.update disk.files (path name p) (some p.writtenBytes) }
      else disk
  | _ => disk

/-- `run_native_call` with the disk. -/
def nativeOnDisk (type : NativeCalls) : Except End (Process × Disk Path) :=
  ((sys.onDisk name disk).runNativeCall p type).map fun p' => (p', diskAfter name disk p type)

end Natives

/-! ## Reading -/

/-- Ranges of the memory, given by address and length, that have no byte in common. -/
def Disjoint (ranges : List (ℕ × ℕ)) : Prop :=
  ranges.Pairwise fun a b => a.1 + a.2 ≤ b.1 ∨ b.1 + b.2 ≤ a.1

/-- In front of the allocation in `read_file`: the result and the size are stored. -/
def sized (p : Process) (size : BitVec 32) (outSize : BitVec 64) : Process :=
  if outSize = 0 then p.result 1 1 else (p.result 1 1).store outSize 4 (size.setWidth 64)

/-- `read_file(path, outData, outSize)` can store what it reads: both pointers are there, there is
memory for the bytes, and nothing is stored over something else. -/
structure Readable (sys : System) (p : Process) (n : ℕ) (outData outSize : BitVec 64) : Prop where
  hasPath : p.arg 0 8 ≠ 0
  hasData : outData ≠ 0
  hasSize : outSize ≠ 0
  hasMemory : sys.malloc (sized p (BitVec.ofNat 32 n) outSize) (BitVec.ofNat 32 n) ≠ 0
  disjoint : Disjoint [(p.resultPtr.toNat, 1), (outSize.toNat, 4), (outData.toNat, 8),
    ((sys.malloc (sized p (BitVec.ofNat 32 n) outSize) (BitVec.ofNat 32 n)).toNat, n)]

/-- `read_file` has returned true, with the bytes in a new block of the table. -/
structure ReadsBack (p p' : Process) (bytes : List (BitVec 8)) : Prop where
  returned : p.returned p' 1 = 1
  size : (p'.load (p.arg 16 8) 4).setWidth 32 = BitVec.ofNat 32 bytes.length
  tracked : ((p'.load (p.arg 8 8) 8).toNat, bytes.length) ∈ p'.machine.allocations
  fresh : ∀ n block, p.ledger.Live n block → block.1 ≠ (p'.load (p.arg 8 8) 8).toNat
  bytes : p'.machine.memory.bytes (p'.load (p.arg 8 8) 8).toNat bytes.length = bytes

theorem write_apply_of_not_mem {mem : ByteMemory} {addr a : ℕ} {bytes : List (BitVec 8)}
    (ha : a < addr ∨ addr + bytes.length ≤ a) : mem.write addr bytes a = mem a := by
  unfold ByteMemory.write
  split
  · exact List.getD_eq_default _ _ (by omega)
  · rfl

/-- A load outside of the bytes that are written. -/
theorem load_write {mem : ByteMemory} {addr addr' n : ℕ} {bytes : List (BitVec 8)}
    (hdisjoint : addr' + n ≤ addr ∨ addr + bytes.length ≤ addr') :
    ((mem.write addr bytes).load addr' n : BitVec 64) = mem.load addr' n :=
  ByteMemory.load_congr fun i hi => write_apply_of_not_mem (by omega)

theorem bytes_write (mem : ByteMemory) (addr : ℕ) (bytes : List (BitVec 8)) :
    (mem.write addr bytes).bytes addr bytes.length = bytes := by
  unfold ByteMemory.bytes
  refine List.ext_getElem (by simp) fun i hi hi' => ?_
  rw [List.getElem_map, List.getElem_range]
  unfold ByteMemory.write
  rw [if_pos (Nat.le_add_right ..), Nat.add_sub_cancel_left]
  exact List.getD_eq_getElem _ _ hi'

theorem bytes_store {mem : ByteMemory} {addr addr' n m : ℕ} {value : BitVec 64}
    (hdisjoint : addr' + m ≤ addr ∨ addr + n ≤ addr') :
    (mem.store addr n value).bytes addr' m = mem.bytes addr' m := by
  unfold ByteMemory.bytes
  refine List.map_congr_left fun i hi => ByteMemory.store_apply_of_not_mem ?_
  rw [List.mem_range] at hi
  omega

/-- Behind `read_file`, with a block at `text`. -/
def filled (p : Process) (text : BitVec 64) (bytes : List (BitVec 8)) (outData outSize : BitVec 64) :
    Process :=
  let p := (sized p (BitVec.ofNat 32 bytes.length) outSize).handOut text
    (BitVec.ofNat 32 bytes.length)
  ({ p with machine := { p.machine with
    memory := p.machine.memory.write text.toNat bytes } } : Process).store outData 8 text

/-- What `read_file` gives back: the file as it is. -/
theorem readFile_readsBack {sys : System} {p : Process} {bytes : List (BitVec 8)}
    (hlength : bytes.length < 2 ^ 31) (h : Readable sys p bytes.length (p.arg 8 8) (p.arg 16 8)) :
    ∃ p', sys.readFile p { size := BitVec.ofNat 32 bytes.length, bytes := bytes } (p.arg 8 8)
      (p.arg 16 8) = .ok p' ∧ ReadsBack p p' bytes := by
  obtain ⟨-, hdata, hsize, hmemory, hdisjoint⟩ := h
  have htoInt : (BitVec.ofNat 32 bytes.length).toInt.toNat = bytes.length := by
    rw [BitVec.toInt_eq_toNat_of_lt, BitVec.toNat_ofNat]
    · omega
    · rw [BitVec.toNat_ofNat]
      omega
  have hread : sys.readFile p { size := BitVec.ofNat 32 bytes.length, bytes := bytes } (p.arg 8 8)
      (p.arg 16 8) = .ok (filled p (sys.malloc (sized p (BitVec.ofNat 32 bytes.length) (p.arg 16 8))
        (BitVec.ofNat 32 bytes.length)) bytes (p.arg 8 8) (p.arg 16 8)) := by
    unfold readFile
    dsimp only
    rw [if_neg hdata]
    change (if sys.malloc (sized p (BitVec.ofNat 32 bytes.length) (p.arg 16 8)) _ = 0 then _
      else _) = _
    rw [if_neg hmemory, htoInt, List.take_length]
    rfl
  have hfresh := sys.fresh (sized p (BitVec.ofNat 32 bytes.length) (p.arg 16 8))
    (BitVec.ofNat 32 bytes.length) hmemory
  have hledger : (sized p (BitVec.ofNat 32 bytes.length) (p.arg 16 8)).ledger = p.ledger := by
    unfold sized
    split <;> rfl
  rw [hledger] at hfresh
  refine ⟨_, hread, ?_⟩
  generalize sys.malloc (sized p (BitVec.ofNat 32 bytes.length) (p.arg 16 8))
    (BitVec.ofNat 32 bytes.length) = text at hfresh hdisjoint ⊢
  simp only [Disjoint, List.pairwise_cons, List.mem_cons, List.not_mem_nil, or_false,
    forall_eq_or_imp, forall_eq] at hdisjoint
  obtain ⟨⟨hresultSize, hresultData, hresultText⟩, ⟨hsizeData, hsizeText⟩, hdataText, -⟩ := hdisjoint
  have hmem : (filled p text bytes (p.arg 8 8) (p.arg 16 8)).machine.memory =
      ((((p.machine.memory.store p.resultPtr.toNat 1 (1 : BitVec 64)).store (p.arg 16 8).toNat 4
        ((BitVec.ofNat 32 bytes.length).setWidth 64)).write text.toNat bytes).store
          (p.arg 8 8).toNat 8 text) := by
    unfold filled sized
    rw [if_neg hsize]
    rfl
  have hpointer : (filled p text bytes (p.arg 8 8) (p.arg 16 8)).load (p.arg 8 8) 8 = text := by
    unfold Process.load
    rw [hmem]
    exact ByteMemory.load_store_word _ _ (by decide : 8 * 8 = 64) text
  refine ⟨?_, ?_, ?_, ?_, ?_⟩
  · unfold Process.returned Process.load
    rw [hmem, ByteMemory.load_store_disjoint _ _ hresultData, load_write hresultText,
      ByteMemory.load_store_disjoint _ _ hresultSize, ByteMemory.load_store_same]
    rfl
  · unfold Process.load
    rw [hmem, ByteMemory.load_store_disjoint _ _ hsizeData, load_write hsizeText,
      ByteMemory.load_store_same]
    simp
  · rw [hpointer]
    change (text.toNat, bytes.length) ∈ Ledger.insert _ text.toNat
      (BitVec.ofNat 32 bytes.length).toInt.toNat
    rw [htoInt]
    exact List.mem_cons_self ..
  · rw [hpointer]
    exact hfresh
  · rw [hpointer, hmem, bytes_store hdataText.symm]
    exact bytes_write ..

/-! ## Writing and reading -/

section RoundTrip

variable {Path : Type} [DecidableEq Path] (sys : System) (name : ByteMemory → BitVec 64 → Path)
  {disk disk' : Disk Path} {p p' : Process}

/-- The bytes that `write_file` is called with. -/
def givenBytes (p : Process) : List (BitVec 8) :=
  p.machine.memory.bytes (p.arg 8 8).toNat p.writeSize.toNat

/-- The file has the bytes that `p` gave to `write_file`, and a `read_file` of it from any state
gives them back. -/
structure FileKept (p : Process) (disk' : Disk Path) : Prop where
  file : disk'.files (path name p) = some (givenBytes p)
  read : ∀ p₂, path name p₂ = path name p →
    Readable (sys.onDisk name disk') p₂ p.writeSize.toNat (p₂.arg 8 8) (p₂.arg 16 8) →
    ∃ p₃, sys.nativeOnDisk name disk' p₂ .readFile = .ok (p₃, disk') ∧
      ReadsBack p₂ p₃ (givenBytes p)

/-- A file that is there is read as it is. -/
theorem nativeOnDisk_readFile {bytes : List (BitVec 8)} (hlength : bytes.length < 2 ^ 31)
    (hfile : disk.files (path name p) = some bytes)
    (h : Readable (sys.onDisk name disk) p bytes.length (p.arg 8 8) (p.arg 16 8)) :
    ∃ p', sys.nativeOnDisk name disk p .readFile = .ok (p', disk) ∧ ReadsBack p p' bytes := by
  obtain ⟨p', hread, hback⟩ := readFile_readsBack hlength h
  have hopen : (sys.onDisk name disk).openFile p (p.arg 0 8) =
      some { size := BitVec.ofNat 32 bytes.length, bytes := bytes } :=
    congrArg (Option.map _) hfile
  have hnative : (sys.onDisk name disk).runNativeCall p .readFile = .ok p' := by
    simp only [runNativeCall]
    rw [if_neg h.hasPath, hopen]
    exact hread
  refine ⟨p', ?_, hback⟩
  unfold nativeOnDisk
  rw [hnative]
  rfl

/-- A `write_file` that returns true leaves an empty file. -/
theorem files_of_writeFile (hcall : sys.nativeOnDisk name disk p .writeFile = .ok (p', disk'))
    (htrue : p.returned p' 1 = 1) : disk'.files (path name p) = some [] := by
  unfold nativeOnDisk at hcall
  cases hnative : (sys.onDisk name disk).runNativeCall p .writeFile with
  | error stop =>
      rw [hnative] at hcall
      cases hcall
  | ok q =>
      rw [hnative] at hcall
      cases hcall
      simp only [runNativeCall] at hnative
      split at hnative
      · cases hnative
      · next hpath =>
          split at hnative
          · next hopen =>
              have hdisk : diskAfter name disk p .writeFile =
                  { disk with files :=
                    Function.update disk.files (path name p) (some p.writtenBytes) } :=
                if_pos ⟨hpath, hopen⟩
              rw [hdisk, Process.writtenBytes_eq_nil]
              exact Function.update_self ..
          · -- the file could not be opened, which is told by the result
            cases hnative
            have hzero : p.returned (p.result 1 0) 1 = 0 := by
              change (p.machine.memory.store _ 1 (0 : BitVec 64)).load _ 1 = _
              rw [Process.resultPtr, ByteMemory.load_store_same]
              rfl
            rw [hzero] at htrue
            cases htrue

/-- What `write_file` has returned true for is kept exactly if it is nothing. -/
theorem fileKept_iff (hcall : sys.nativeOnDisk name disk p .writeFile = .ok (p', disk'))
    (htrue : p.returned p' 1 = 1) (hsize : 0 ≤ p.writeSize) :
    FileKept sys name p disk' ↔ p.writeSize = 0 := by
  have hfile := files_of_writeFile sys name hcall htrue
  constructor
  · intro h
    have hempty : givenBytes p = [] := Option.some.inj (h.file.symm.trans hfile)
    have hlength : (givenBytes p).length = p.writeSize.toNat := by
      simp [givenBytes, ByteMemory.bytes]
    rw [hempty, List.length_nil] at hlength
    omega
  · intro hzero
    have hgiven : givenBytes p = [] := by
      unfold givenBytes
      rw [hzero]
      rfl
    refine ⟨hgiven ▸ hfile, fun p₂ hpath hreadable => ?_⟩
    rw [hzero] at hreadable
    rw [hgiven]
    exact nativeOnDisk_readFile sys name (by decide) (hpath ▸ hfile) hreadable

end RoundTrip

/-- In front of the call `write_file(path, data, n)`. -/
def writeCall (n : BitVec 64) : Process :=
  let p := start (single [[.inst .ret]])
  ((({ p with machine := p.machine.set .sp 0x100200 } : Process).store 0x100200 8 0x100300).store
    0x100208 8 0x100400).store 0x100210 4 n

/-- Any name can be written to. -/
def emptyDisk : Disk (BitVec 8) := { files := fun _ => none, writable := fun _ => true }

/-- Names are single characters. -/
def firstByte (mem : ByteMemory) (ptr : BitVec 64) : BitVec 8 := mem ptr.toNat

theorem nativeOnDisk_writeCall (n : BitVec 64) (hpath : (writeCall n).arg 0 8 ≠ 0)
    (hsize : 0 ≤ (writeCall n).writeSize) :
    (single [[.inst .ret]]).nativeOnDisk firstByte emptyDisk (writeCall n) .writeFile =
      .ok ((writeCall n).result 1 1, diskAfter firstByte emptyDisk (writeCall n) .writeFile) := by
  have hnative : ((single [[.inst .ret]]).onDisk firstByte emptyDisk).runNativeCall (writeCall n)
      .writeFile = .ok ((writeCall n).result 1 1) := by
    have hopen : ((single [[.inst .ret]]).onDisk firstByte emptyDisk).createFile (writeCall n)
        ((writeCall n).arg 0 8) = true := rfl
    simp only [runNativeCall]
    rw [if_neg hpath, if_pos hopen]
    exact if_neg fun h => absurd h.1 (Int.not_lt.mpr hsize)
  unfold nativeOnDisk
  rw [hnative]
  rfl

theorem fileKept_iff_empty :
    FileKept (single [[.inst .ret]]) firstByte (writeCall 0)
      (diskAfter firstByte emptyDisk (writeCall 0) .writeFile) ↔ (writeCall 0).writeSize = 0 :=
  fileKept_iff _ firstByte (nativeOnDisk_writeCall 0 (by decide +kernel) (by decide +kernel))
    (by decide +kernel) (by decide +kernel)

/-- One byte is written, and the file is empty. -/
theorem not_fileKept_byte :
    ¬ ∀ (sys : System) (name : ByteMemory → BitVec 64 → BitVec 8) (disk disk' : Disk (BitVec 8))
      (p p' : Process), sys.nativeOnDisk name disk p .writeFile = .ok (p', disk') →
      p.returned p' 1 = 1 → 0 ≤ p.writeSize → FileKept sys name p disk' := by
  intro hall
  have hkept := hall _ firstByte emptyDisk _ _ _
    (nativeOnDisk_writeCall 1 (by decide +kernel) (by decide +kernel)) (by decide +kernel)
    (by decide +kernel)
  have hempty : (diskAfter firstByte emptyDisk (writeCall 1) .writeFile).files
      (path firstByte (writeCall 1)) = some [] := by decide +kernel
  have hone : (givenBytes (writeCall 1)).length = 1 := by decide +kernel
  have hnone : givenBytes (writeCall 1) = [] := Option.some.inj (hkept.file.symm.trans hempty)
  rw [hnone] at hone
  cases hone

end System

end TinCompiler
