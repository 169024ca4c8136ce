import TinCompiler.Bytecode
import TinCompiler.Library.Transition
import Mathlib.Logic.Function.Basic

/-!
# The data segment

`appendData` and `appendString` of `Bytecode.cpp` on any number of threads.  Each block under
`general_lock` is one step.  `appendString` looks a string up and enters it in different blocks,
so two threads may both append the same string; the offsets that are handed out stay good all the
same (`dataSegment_kept`).
-/

namespace TinCompiler.DataSegment

/-- The bytes of a `std::string`. -/
abbrev Bytes := List (BitVec 8)

/-- The global data of `Bytecode`. -/
structure Segment where
  globalData : Bytes := []
  globalDataSize : ℕ := 0
  globalDataMax : ℕ := 0
  stringMap : Bytes → Option ℕ := fun _ => none

namespace Segment

/-- `RENEW_ARRAY`; the new bytes of the buffer are indeterminate. -/
def grow (segment : Segment) (size : ℕ) (garbage : ℕ → BitVec 8) : Segment :=
  if size + segment.globalDataSize > segment.globalDataMax then
    let max := segment.globalDataMax * 2 + size * 2
    { segment with
      globalData := segment.globalData ++ (List.range (max - segment.globalDataMax)).map garbage
      globalDataMax := max }
  else segment

/-- `memcpy(global_data + off, bytes, size)` -/
def write (segment : Segment) (off : ℕ) (bytes : Bytes) : Segment :=
  { segment with
    globalData := segment.globalData.take off ++ bytes ++ segment.globalData.drop (off + bytes.length) }

/-- What `appendData` writes: `size` bytes of `data`, or a filler. -/
def contents (size : ℕ) (data : Option Bytes) : Bytes :=
  match data with
  | some bytes => bytes.take size
  | none => List.replicate size '_'.toNat

/-- `appendData` returns the offset of the new data. -/
def appendData (segment : Segment) (size : ℕ) (data : Option Bytes) (garbage : ℕ → BitVec 8) :
    ℕ × Segment :=
  let segment := segment.grow size garbage
  let off := segment.globalDataSize
  (off, { segment with globalDataSize := off + size }.write off (contents size data))

/-- The bytes in a range. -/
def bytesAt (segment : Segment) (off length : ℕ) : Bytes := (segment.globalData.drop off).take length

end Segment

/-- The bytes that `appendString` appends. -/
def terminated (str : Bytes) : Bytes := str ++ [0]

/-- Where a thread stands. -/
inductive Position where
  | idle
  /-- in `appendString`, which has not found the string -/
  | missed (str : Bytes)
  /-- in `appendString`, after `appendData` -/
  | appended (str : Bytes) (off : ℕ)

/-- `ranges` are the ranges that `appendData` has allocated with what it has put into them, the
newest first; `strings` are the strings with the offsets that `appendString` has returned. -/
structure State (Thread : Type) where
  segment : Segment
  position : Thread → Position
  ranges : List (ℕ × Bytes)
  strings : List (Bytes × ℕ)

variable {Thread : Type} [DecidableEq Thread]

namespace State

def move (thread : Thread) (position : Position) (s : State Thread) : State Thread :=
  { s with position := Function.update s.position thread position }

/-- A call of `appendData`. -/
def appendData (size : ℕ) (data : Option Bytes) (garbage : ℕ → BitVec 8) (s : State Thread) :
    State Thread :=
  let appended := s.segment.appendData size data garbage
  { s with
    segment := appended.2
    ranges := (appended.1, Segment.contents size data) :: s.ranges }

/-- `string_map[str] = off` -/
def enter (str : Bytes) (off : ℕ) (s : State Thread) : State Thread :=
  { s with segment := { s.segment with
      stringMap := fun other => if other = str then some off else s.segment.stringMap other } }

/-- The return of `appendString`. -/
def handOut (str : Bytes) (off : ℕ) (s : State Thread) : State Thread :=
  { s with strings := (str, off) :: s.strings }

end State

/-- One block under `general_lock` on one thread. -/
inductive Step : State Thread → State Thread → Prop where
  | appendData {s} (thread) (size : ℕ) (data : Option Bytes) (garbage : ℕ → BitVec 8)
      (hposition : s.position thread = .idle) (hsize : 0 < size)
      (hdata : ∀ bytes, data = some bytes → size ≤ bytes.length) :
      Step s (s.appendData size data garbage)
  | found {s} (thread) (str : Bytes) (off : ℕ) (hposition : s.position thread = .idle)
      (hfound : s.segment.stringMap str = some off) : Step s (s.handOut str off)
  | missed {s} (thread) (str : Bytes) (hposition : s.position thread = .idle)
      (hmissed : s.segment.stringMap str = none) : Step s (s.move thread (.missed str))
  | append {s} (thread) (str : Bytes) (garbage : ℕ → BitVec 8)
      (hposition : s.position thread = .missed str) :
      Step s ((s.appendData (str.length + 1) (some (terminated str)) garbage).move thread
        (.appended str (s.segment.appendData (str.length + 1) (some (terminated str)) garbage).1))
  | enter {s} (thread) (str : Bytes) (off : ℕ) (hposition : s.position thread = .appended str off) :
      Step s (((s.enter str off).handOut str off).move thread .idle)

/-- All runs of the calls on all threads. -/
def calls (Thread : Type) [DecidableEq Thread] : Transition (State Thread) where
  init s := s = ⟨{}, fun _ => .idle, [], []⟩
  step := Step

/-! ## What the operations do to the bytes -/

namespace Segment

variable {segment : Segment}

/-- The buffer has the size that is noted, and what is used lies in it. -/
structure Fits (segment : Segment) : Prop where
  length : segment.globalData.length = segment.globalDataMax
  used : segment.globalDataSize ≤ segment.globalDataMax

theorem length_contents {size : ℕ} {data : Option Bytes}
    (hdata : ∀ bytes, data = some bytes → size ≤ bytes.length) :
    (contents size data).length = size := by
  cases data with
  | none => simp [contents]
  | some bytes =>
      rw [contents, List.length_take]
      exact Nat.min_eq_left (hdata bytes rfl)

theorem grow_fits (h : segment.Fits) (size : ℕ) (garbage : ℕ → BitVec 8) :
    (segment.grow size garbage).Fits ∧
      size + segment.globalDataSize ≤ (segment.grow size garbage).globalDataMax := by
  have hlength := h.length
  have hused := h.used
  unfold grow
  split
  · refine ⟨⟨?_, ?_⟩, ?_⟩
    · simp only [List.length_append, List.length_map, List.length_range]
      omega
    · simp only
      omega
    · simp only
      omega
  · exact ⟨h, by omega⟩

@[simp] theorem grow_globalDataSize (size : ℕ) (garbage : ℕ → BitVec 8) :
    (segment.grow size garbage).globalDataSize = segment.globalDataSize := by
  unfold grow
  split <;> rfl

@[simp] theorem grow_stringMap (size : ℕ) (garbage : ℕ → BitVec 8) :
    (segment.grow size garbage).stringMap = segment.stringMap := by
  unfold grow
  split <;> rfl

theorem bytesAt_grow (h : segment.Fits) (size : ℕ) (garbage : ℕ → BitVec 8) {off length : ℕ}
    (hle : off + length ≤ segment.globalDataSize) :
    (segment.grow size garbage).bytesAt off length = segment.bytesAt off length := by
  have hlength := h.length
  have hused := h.used
  unfold grow
  split
  · simp only [bytesAt]
    rw [List.drop_append_of_le_length (by omega), List.take_append_of_le_length]
    rw [List.length_drop]
    omega
  · rfl

theorem bytesAt_write_self (off : ℕ) (bytes : Bytes) (hle : off ≤ segment.globalData.length) :
    (segment.write off bytes).bytesAt off bytes.length = bytes := by
  simp [bytesAt, write, List.append_assoc, hle]

theorem bytesAt_write_below {off off' length : ℕ} (bytes : Bytes) (hle : off' + length ≤ off)
    (hoff : off ≤ segment.globalData.length) :
    (segment.write off bytes).bytesAt off' length = segment.bytesAt off' length := by
  have htake : (segment.globalData.take off).length = off := by
    rw [List.length_take]
    omega
  simp only [bytesAt, write, List.append_assoc]
  rw [List.drop_append_of_le_length (by omega), List.take_append_of_le_length (by
    rw [List.length_drop]; omega), List.drop_take, List.take_take]
  congr 1
  omega

/-- The offsets are those of the model without bytes. -/
theorem appendData_offset {bytecode : Bytecode}
    (h : segment.globalDataSize = bytecode.globalDataSize) (size : ℕ) (data : Option Bytes)
    (garbage : ℕ → BitVec 8) :
    (segment.appendData size data garbage).1 = (bytecode.appendData size).1 ∧
      (segment.appendData size data garbage).2.globalDataSize =
        (bytecode.appendData size).2.globalDataSize := by
  simp only [appendData, write, grow_globalDataSize, h, Bytecode.appendData, and_self]

end Segment

/-! ## Runs -/

/-- The buffer is large enough, the allocated ranges are disjoint and in use and hold what was put
into them, and every string that some thread, the map or a caller has an offset of is in such a
range. -/
structure Sound (s : State Thread) : Prop where
  fits : s.segment.Fits
  inside : ∀ range ∈ s.ranges, range.1 + range.2.length ≤ s.segment.globalDataSize
  disjoint : s.ranges.Pairwise fun range older => older.1 + older.2.length ≤ range.1
  bytes : ∀ range ∈ s.ranges, s.segment.bytesAt range.1 range.2.length = range.2
  appended : ∀ thread str off, s.position thread = .appended str off →
    (off, terminated str) ∈ s.ranges
  mapped : ∀ str off, s.segment.stringMap str = some off → (off, terminated str) ∈ s.ranges
  handedOut : ∀ handed ∈ s.strings, (handed.2, terminated handed.1) ∈ s.ranges

namespace Sound

variable {s : State Thread}

theorem appendData (h : Sound s) {size : ℕ} {data : Option Bytes} (garbage : ℕ → BitVec 8)
    (hdata : ∀ bytes, data = some bytes → size ≤ bytes.length) :
    Sound (s.appendData size data garbage) := by
  obtain ⟨hfits, hroom⟩ := Segment.grow_fits h.fits size garbage
  have hlength := Segment.length_contents hdata
  have hsize := hfits.length
  have hused := h.fits.used
  generalize hgrown : s.segment.grow size garbage = grown at hfits hroom hsize
  have hsame : grown.globalDataSize = s.segment.globalDataSize := by
    rw [← hgrown, Segment.grow_globalDataSize]
  have hmap : grown.stringMap = s.segment.stringMap := by
    rw [← hgrown, Segment.grow_stringMap]
  have hsegment : (s.appendData size data garbage).segment =
      { grown with globalDataSize := grown.globalDataSize + size }.write grown.globalDataSize
        (Segment.contents size data) := by
    simp only [State.appendData, Segment.appendData, hgrown]
  have hranges : (s.appendData size data garbage).ranges =
      (grown.globalDataSize, Segment.contents size data) :: s.ranges := by
    simp only [State.appendData, Segment.appendData, hgrown]
  refine ⟨?_, ?_, ?_, ?_, ?_, ?_, ?_⟩
  · rw [hsegment]
    refine ⟨?_, ?_⟩
    · simp only [Segment.write, List.length_append, List.length_take, List.length_drop, hlength]
      omega
    · simp only [Segment.write]
      omega
  · intro range hmem
    rw [hsegment]
    rw [hranges] at hmem
    rcases List.mem_cons.mp hmem with rfl | hmem
    · simp only [Segment.write, hlength]
      omega
    · have hinside := h.inside range hmem
      simp only [Segment.write]
      omega
  · rw [hranges]
    refine List.pairwise_cons.mpr ⟨fun range hmem => ?_, h.disjoint⟩
    rw [hsame]
    exact h.inside range hmem
  · intro range hmem
    rw [hsegment]
    rw [hranges] at hmem
    rcases List.mem_cons.mp hmem with rfl | hmem
    · exact Segment.bytesAt_write_self _ _ (by simp only; omega)
    · have hinside := h.inside range hmem
      rw [Segment.bytesAt_write_below _ (by omega) (by simp only; omega)]
      have hgrow := Segment.bytesAt_grow h.fits size garbage hinside
      rw [hgrown, h.bytes range hmem] at hgrow
      exact hgrow
  · intro thread str off hposition
    rw [hranges]
    exact List.mem_cons_of_mem _ (h.appended thread str off hposition)
  · intro str off hfound
    rw [hranges]
    rw [hsegment] at hfound
    refine List.mem_cons_of_mem _ (h.mapped str off ?_)
    rw [← hmap]
    exact hfound
  · intro handed hmem
    rw [hranges]
    exact List.mem_cons_of_mem _ (h.handedOut handed hmem)

theorem move (h : Sound s) {thread : Thread} {position : Position}
    (hposition : ∀ str off, position = .appended str off → (off, terminated str) ∈ s.ranges) :
    Sound (s.move thread position) := by
  refine ⟨h.fits, h.inside, h.disjoint, h.bytes, fun other str off hother => ?_, h.mapped,
    h.handedOut⟩
  by_cases heq : other = thread
  · subst heq
    simp only [State.move, Function.update_self] at hother
    exact hposition str off hother
  · simp only [State.move, Function.update_of_ne heq] at hother
    exact h.appended other str off hother

theorem enter (h : Sound s) {str : Bytes} {off : ℕ} (hrange : (off, terminated str) ∈ s.ranges) :
    Sound (s.enter str off) := by
  refine ⟨⟨h.fits.length, h.fits.used⟩, h.inside, h.disjoint, h.bytes, h.appended,
    fun other off' hfound => ?_, h.handedOut⟩
  simp only [State.enter] at hfound
  split at hfound
  · next heq =>
      cases hfound
      rw [heq]
      exact hrange
  · exact h.mapped other off' hfound

theorem handOut (h : Sound s) {str : Bytes} {off : ℕ} (hrange : (off, terminated str) ∈ s.ranges) :
    Sound (s.handOut str off) := by
  refine ⟨h.fits, h.inside, h.disjoint, h.bytes, h.appended, h.mapped, fun handed hmem => ?_⟩
  rcases List.mem_cons.mp hmem with rfl | hmem
  · exact hrange
  · exact h.handedOut handed hmem

theorem step {s' : State Thread} (h : Sound s) (hstep : Step s s') : Sound s' := by
  cases hstep with
  | appendData thread size data garbage _ _ hdata => exact h.appendData garbage hdata
  | found thread str off _ hfound => exact h.handOut (h.mapped str off hfound)
  | missed thread str _ _ => exact h.move fun _ _ heq => by cases heq
  | append thread str garbage _ =>
      have hdata : ∀ bytes, some (terminated str) = some bytes → str.length + 1 ≤ bytes.length := by
        intro bytes heq
        cases heq
        simp [terminated]
      refine (h.appendData garbage hdata).move fun str' off heq => ?_
      cases heq
      have hcontents : Segment.contents (str.length + 1) (some (terminated str)) = terminated str := by
        rw [Segment.contents, List.take_of_length_le (by simp [terminated])]
      have hnew := List.mem_cons_self (a := ((s.segment.appendData (str.length + 1)
        (some (terminated str)) garbage).1, Segment.contents (str.length + 1)
          (some (terminated str)))) (l := s.ranges)
      rw [hcontents] at hnew
      simpa only [State.move, State.appendData, hcontents] using hnew
  | enter thread str off hposition =>
      have hrange := h.appended thread str off hposition
      exact ((h.enter hrange).handOut hrange).move fun _ _ heq => by cases heq

end Sound

theorem sound_of_reachable {s : State Thread} (h : (calls Thread).Reachable s) : Sound s := by
  refine h.invariant (fun s hinit => ?_) fun s s' hsound hstep => hsound.step hstep
  cases hinit
  exact ⟨⟨rfl, Nat.le_refl _⟩, by simp, by simp, by simp, (fun _ _ _ h => nomatch h),
    (fun _ _ h => nomatch h), by simp⟩

/-- Nothing that was allocated or handed out is taken back. -/
theorem kept_of_run {s s' : State Thread} (h : Relation.ReflTransGen (calls Thread).step s s') :
    s.ranges ⊆ s'.ranges ∧ s.strings ⊆ s'.strings := by
  induction h with
  | refl => exact ⟨fun _ h => h, fun _ h => h⟩
  | tail _ hstep ih =>
      refine ⟨List.Subset.trans ih.1 ?_, List.Subset.trans ih.2 ?_⟩
      all_goals
        cases hstep <;> intro x hx <;>
          first | exact hx | exact List.mem_cons_of_mem _ hx

/-- What the ranges and the strings are in every later state. -/
structure Kept (s s' : State Thread) : Prop where
  disjoint : s.ranges.Pairwise fun range older => older.1 + older.2.length ≤ range.1
  inside : ∀ range ∈ s.ranges, range.1 + range.2.length ≤ s.segment.globalDataSize
  bytes : ∀ range ∈ s.ranges, s'.segment.bytesAt range.1 range.2.length = range.2
  strings : ∀ handed ∈ s.strings,
    s'.segment.bytesAt handed.2 (terminated handed.1).length = terminated handed.1

/-- The ranges are disjoint, and they keep their bytes from their allocation on. -/
theorem dataSegment_kept {s s' : State Thread} (h : (calls Thread).Reachable s)
    (hrun : Relation.ReflTransGen (calls Thread).step s s') : Kept s s' := by
  have hsound := sound_of_reachable h
  have hlater : (calls Thread).Reachable s' := by
    obtain ⟨start, hinit, hreach⟩ := h
    exact ⟨start, hinit, hreach.trans hrun⟩
  have hsound' := sound_of_reachable hlater
  obtain ⟨hranges, hstrings⟩ := kept_of_run hrun
  exact ⟨hsound.disjoint, hsound.inside, fun range hmem => hsound'.bytes range (hranges hmem),
    fun handed hmem => hsound'.bytes _ (hsound'.handedOut handed (hstrings hmem))⟩

/-- Two threads append the string `a`, and both have missed it in the map. -/
theorem dataSegment_kept_twice : ∃ s s' : State Bool, s.strings = [([97], 0)] ∧
    s'.strings = [([97], 2), ([97], 0)] ∧ Kept s s' := by
  let start : State Bool := ⟨{}, fun _ => .idle, [], []⟩
  let missed := (start.move false (.missed [97])).move true (.missed [97])
  let first := (missed.appendData 2 (some (terminated [97])) fun _ => 0).move false
    (.appended [97] 0)
  let second := (first.appendData 2 (some (terminated [97])) fun _ => 0).move true
    (.appended [97] 2)
  let entered := ((second.enter [97] 0).handOut [97] 0).move false .idle
  let both := ((entered.enter [97] 2).handOut [97] 2).move true .idle
  have hmissed : (calls Bool).Reachable missed :=
    ((Transition.Reachable.start rfl).tail (Step.missed false [97] rfl rfl)).tail
      (Step.missed true [97] rfl rfl)
  have hsecond : (calls Bool).Reachable second :=
    (hmissed.tail (Step.append false [97] (fun _ => 0) rfl)).tail (Step.append true [97] (fun _ => 0) rfl)
  have hentered : (calls Bool).Reachable entered := hsecond.tail (Step.enter false [97] 0 rfl)
  exact ⟨entered, both, rfl, rfl, dataSegment_kept hentered (.single (Step.enter true [97] 2 rfl))⟩

end TinCompiler.DataSegment
