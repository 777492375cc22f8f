import Mathlib.Algebra.Ring.Int.Defs
import Mathlib.Algebra.Ring.Nat

/-!
# Reading through a section of a file

The helpers of `ImagePreReader` that read a file with a `HANDLE`: a file is its
bytes, a handle its position and the reads made through it so far. The length
to be read is a percentage of the section, computed in `size_t`.

`section_read_iff` says when `ReadThroughSection` reads the share of a section
that it should: the product that the percentage is taken from must fit in a
`size_t`, or some read must fail.
-/

namespace Mdgate.Chrome

/-! ## Files -/

/-- An open file. -/
structure FileHandle where
  content : List UInt8
  position : Nat
  reads : List (Nat × Nat)
  deriving DecidableEq, Repr

namespace FileHandle

/-- `::ReadFile`: the bytes from the position on, as many as there are up to `n`. -/
def readFile (h : FileHandle) (n : Nat) : FileHandle × List UInt8 :=
  let bytes := (h.content.drop h.position).take n
  ({ h with
      position := h.position + bytes.length
      reads := h.reads ++ [(h.position, bytes.length)] }, bytes)

/-- `SetFilePointer`; the Windows function takes a `LONG`. -/
def setFilePointer (h : FileHandle) (position : Nat) : FileHandle × Bool :=
  if position ≤ 2 ^ 31 - 1 then ({ h with position := position }, true) else (h, false)

/-- `ReadNextBytes`: the bytes, if all of them were read. -/
def readNextBytes (h : FileHandle) (bytesToRead : Nat) : FileHandle × Option (List UInt8) :=
  if bytesToRead ≤ 2 ^ 32 - 1 then
    let r := h.readFile bytesToRead
    (r.1, if r.2.length = bytesToRead then some r.2 else none)
  else (h, none)

end FileHandle

/-! ## Sections -/

/-- The fields of an `IMAGE_SECTION_HEADER` that are read. -/
structure ImageSectionHeader where
  virtualSize : UInt32
  virtualAddress : UInt32
  sizeOfRawData : UInt32
  pointerToRawData : UInt32
  deriving DecidableEq, Repr

namespace ImageSectionHeader

def initializedLength (s : ImageSectionHeader) : Nat :=
  min s.sizeOfRawData.toNat s.virtualSize.toNat

/-- `GetPercentageOfSectionLength`, with a `size_t` of `w` bits. -/
def getPercentageOfSectionLength (w : Nat) (s : ImageSectionHeader) (percentage : Nat) : Nat :=
  if s.initializedLength = 0 then 0
  else max (s.initializedLength * percentage % 2 ^ w / 100) 1

end ImageSectionHeader

/-- `temp_buffer`: only its size matters, which is not zero. -/
structure TempBuffer where
  size : Nat
  pos : 0 < size

/-- The loop of `ReadThroughSection` and the read that follows it. -/
def readChunks (h : FileHandle) (bytesToRead : Nat) (buffer : TempBuffer) : FileHandle × Bool :=
  if buffer.size < bytesToRead then
    let r := h.readNextBytes buffer.size
    if r.2.isSome then readChunks r.1 (bytesToRead - buffer.size) buffer else (r.1, false)
  else
    let r := h.readNextBytes bytesToRead
    (r.1, r.2.isSome)
termination_by bytesToRead
decreasing_by
  have hpos := buffer.pos
  omega

def readThroughSection (w : Nat) (h : FileHandle) (s : ImageSectionHeader) (percentage : Nat)
    (buffer : TempBuffer) : FileHandle × Bool :=
  let bytesToRead := s.getPercentageOfSectionLength w percentage
  if bytesToRead = 0 then (h, true)
  else
    let r := h.setFilePointer s.pointerToRawData.toNat
    if r.2 then readChunks r.1 bytesToRead buffer else (r.1, false)

/-! ## What a run of chunks reads -/

/-- The bytes of a list of reads, as offsets into the file. -/
def offsets (reads : List (Nat × Nat)) : List Nat := reads.flatMap fun c => List.range' c.1 c.2

namespace FileHandle

variable {h : FileHandle} {n : Nat}

theorem readNextBytes_some (hn : n ≤ 2 ^ 32 - 1) (hlen : h.position + n ≤ h.content.length) :
    h.readNextBytes n = ({ h with
      position := h.position + n
      reads := h.reads ++ [(h.position, n)] }, some ((h.content.drop h.position).take n)) := by
  have htake : ((h.content.drop h.position).take n).length = n := by
    rw [List.length_take, List.length_drop]
    omega
  simp only [readNextBytes, readFile, if_pos hn, htake, if_true]

theorem readNextBytes_none (hpos : 0 < n) (hlen : h.content.length < h.position + n) :
    (h.readNextBytes n).2 = none := by
  unfold readNextBytes readFile
  split
  · have htake : ((h.content.drop h.position).take n).length ≠ n := by
      rw [List.length_take, List.length_drop]
      omega
    simp only [if_neg htake]
  · rfl

theorem readNextBytes_fits {bytes : List UInt8} (hpos : 0 < n)
    (hr : (h.readNextBytes n).2 = some bytes) :
    n ≤ 2 ^ 32 - 1 ∧ h.position + n ≤ h.content.length := by
  by_contra hno
  have hnone : (h.readNextBytes n).2 = none := by
    by_cases hn : n ≤ 2 ^ 32 - 1
    · exact readNextBytes_none hpos (by omega)
    · rw [readNextBytes, if_neg hn]
  rw [hnone] at hr
  cases hr

theorem readNextBytes_position (hr : (h.readNextBytes n).2.isSome = true) :
    (h.readNextBytes n).1.position = h.position + n := by
  unfold readNextBytes readFile at hr ⊢
  split at hr
  · rename_i hn
    by_cases htake : ((h.content.drop h.position).take n).length = n
    · simp only [if_pos hn, htake]
    · simp only [if_neg htake] at hr
      cases hr
  · cases hr

@[simp] theorem readNextBytes_content (h : FileHandle) (n : Nat) :
    (h.readNextBytes n).1.content = h.content := by
  unfold readNextBytes
  split <;> rfl

end FileHandle

variable {h : FileHandle} {n : Nat} (buffer : TempBuffer)

/-- The chunks cover the range, each byte once and in order. -/
theorem readChunks_some (hpos : 0 < n) (hn : n ≤ 2 ^ 32 - 1)
    (hlen : h.position + n ≤ h.content.length) :
    ∃ chunks, (readChunks h n buffer).2 = true ∧
      (readChunks h n buffer).1.reads = h.reads ++ chunks ∧
      offsets chunks = List.range' h.position n ∧ ∀ c ∈ chunks, c.2 ≤ buffer.size := by
  have hb := buffer.pos
  fun_induction readChunks h n buffer with
  | case1 h n hlt r hr ih =>
    have hfits : h.position + buffer.size ≤ h.content.length := by omega
    have hread := FileHandle.readNextBytes_some (n := buffer.size) (by omega) hfits
    obtain ⟨chunks, hok, hreads, hoff, hsize⟩ := ih (by omega) (by omega) (by
      simp only [r, hread]
      omega)
    refine ⟨(h.position, buffer.size) :: chunks, hok, ?_, ?_, ?_⟩
    · rw [hreads]
      simp [r, hread]
    · simp only [r, hread] at hoff
      rw [offsets, List.flatMap_cons, ← offsets, hoff, List.range'_append_1]
      congr 1
      omega
    · intro c hc
      rcases List.mem_cons.mp hc with rfl | hc
      · exact Nat.le_refl _
      · exact hsize c hc
  | case2 h n hlt r hr =>
    have hfits : h.position + buffer.size ≤ h.content.length := by omega
    have hread := FileHandle.readNextBytes_some (n := buffer.size) (by omega) hfits
    simp [r, hread] at hr
  | case3 h n hge r =>
    have hread := FileHandle.readNextBytes_some hn hlen
    refine ⟨[(h.position, n)], ?_, ?_, ?_, ?_⟩
    · simp [r, hread]
    · simp [r, hread]
    · simp [offsets]
    · intro c hc
      obtain rfl := List.mem_singleton.mp hc
      omega

/-- A range that the file does not contain cannot be read. -/
theorem readChunks_none (hpos : 0 < n) (hlen : h.content.length < h.position + n) :
    (readChunks h n buffer).2 = false := by
  have hb := buffer.pos
  fun_induction readChunks h n buffer with
  | case1 h n hlt r hr ih =>
    apply ih (by omega)
    rw [FileHandle.readNextBytes_position hr, FileHandle.readNextBytes_content]
    omega
  | case2 h n hlt r hr => rfl
  | case3 h n hge r =>
    have hread := FileHandle.readNextBytes_none hpos hlen
    simp [r, hread]

/-! ## The share of a section -/

namespace ImageSectionHeader

/-- The number of bytes that a percentage asks for. -/
def share (s : ImageSectionHeader) (percentage : Nat) : Nat :=
  if s.initializedLength = 0 then 0 else max 1 (s.initializedLength * percentage / 100)

variable {s : ImageSectionHeader} {percentage w : Nat}

/-- The length is right when the product fits in a `size_t`. -/
theorem getPercentageOfSectionLength_eq (h : s.initializedLength * percentage < 2 ^ w) :
    s.getPercentageOfSectionLength w percentage = s.share percentage := by
  unfold getPercentageOfSectionLength share
  rw [Nat.mod_eq_of_lt h, max_comm]

/-- A product that wraps gives a length that is too small. -/
theorem getPercentageOfSectionLength_lt (h : 2 ^ 32 ≤ s.initializedLength * percentage) :
    s.getPercentageOfSectionLength 32 percentage =
        max (s.initializedLength * percentage % 2 ^ 32 / 100) 1 ∧
      s.getPercentageOfSectionLength 32 percentage < s.share percentage := by
  have hne : s.initializedLength ≠ 0 := by
    intro h0
    rw [h0] at h
    omega
  unfold getPercentageOfSectionLength share
  rw [if_neg hne, if_neg hne]
  omega

end ImageSectionHeader

/-- What `ReadThroughSection` is to do with a section, on an ia32 build. -/
structure ReadsShare (h : FileHandle) (s : ImageSectionHeader) (percentage : Nat)
    (buffer : TempBuffer) : Prop where
  nothing : s.share percentage = 0 → readThroughSection 32 h s percentage buffer = (h, true)
  reads : 0 < s.share percentage → s.pointerToRawData.toNat ≤ 2 ^ 31 - 1 →
    s.pointerToRawData.toNat + s.share percentage ≤ h.content.length →
    ∃ chunks, (readThroughSection 32 h s percentage buffer).2 = true ∧
      (readThroughSection 32 h s percentage buffer).1.reads = h.reads ++ chunks ∧
      offsets chunks = List.range' s.pointerToRawData.toNat (s.share percentage) ∧
      ∀ c ∈ chunks, c.2 ≤ buffer.size
  fails : 0 < s.share percentage →
    h.content.length < s.pointerToRawData.toNat + s.share percentage →
    (readThroughSection 32 h s percentage buffer).2 = false

variable {s : ImageSectionHeader} {percentage w : Nat} {buffer : TempBuffer}

/-- `ReadThroughSection` with a length that is not zero. -/
theorem readThroughSection_eq (hn : s.getPercentageOfSectionLength w percentage ≠ 0)
    (hptr : s.pointerToRawData.toNat ≤ 2 ^ 31 - 1) :
    readThroughSection w h s percentage buffer =
      readChunks { h with position := s.pointerToRawData.toNat }
        (s.getPercentageOfSectionLength w percentage) buffer := by
  simp only [readThroughSection, if_neg hn, FileHandle.setFilePointer, if_pos hptr, if_true]

/-- A section whose data starts beyond a `LONG` is not read. -/
theorem readThroughSection_far (hn : s.getPercentageOfSectionLength w percentage ≠ 0)
    (hptr : 2 ^ 31 ≤ s.pointerToRawData.toNat) :
    (readThroughSection w h s percentage buffer).2 = false := by
  have hfar : ¬ s.pointerToRawData.toNat ≤ 2 ^ 31 - 1 := by omega
  simp only [readThroughSection, if_neg hn, FileHandle.setFilePointer, if_neg hfar]
  rfl

/-- A section whose length does not wrap is read as it should be. -/
theorem readsShare_of_fits (hfit : s.initializedLength * percentage < 2 ^ 32) :
    ReadsShare h s percentage buffer := by
  have hlen := ImageSectionHeader.getPercentageOfSectionLength_eq hfit
  have hshare : s.share percentage ≤ 2 ^ 32 - 1 := by
    unfold ImageSectionHeader.share
    split <;> omega
  refine ⟨fun h0 => ?_, fun hpos hptr hfile => ?_, fun hpos hfile => ?_⟩
  · unfold readThroughSection
    rw [hlen, if_pos h0]
  · rw [readThroughSection_eq (hlen ▸ Nat.ne_of_gt hpos) hptr, hlen]
    exact readChunks_some buffer (h := { h with position := s.pointerToRawData.toNat })
      hpos hshare hfile
  · by_cases hptr : s.pointerToRawData.toNat ≤ 2 ^ 31 - 1
    · rw [readThroughSection_eq (hlen ▸ Nat.ne_of_gt hpos) hptr, hlen]
      exact readChunks_none buffer (h := { h with position := s.pointerToRawData.toNat }) hpos hfile
    · exact readThroughSection_far (hlen ▸ Nat.ne_of_gt hpos) (by omega)

/-- A section whose length wraps is read in part, if the file has that part. -/
theorem not_readsShare (hwrap : 2 ^ 32 ≤ s.initializedLength * percentage)
    (hptr : s.pointerToRawData.toNat < 2 ^ 31)
    (hfile : s.pointerToRawData.toNat + max (s.initializedLength * percentage % 2 ^ 32 / 100) 1 ≤
      h.content.length) : ¬ ReadsShare h s percentage buffer := by
  obtain ⟨hlen, hlt⟩ := ImageSectionHeader.getPercentageOfSectionLength_lt hwrap
  have hpos : 0 < s.getPercentageOfSectionLength 32 percentage := by omega
  have hn : s.getPercentageOfSectionLength 32 percentage ≤ 2 ^ 32 - 1 := by omega
  have heq : readThroughSection 32 h s percentage buffer = _ :=
    readThroughSection_eq (Nat.ne_of_gt hpos) (Nat.le_sub_one_of_lt hptr)
  obtain ⟨chunks, hok, hreads, hoff, -⟩ := readChunks_some buffer
    (h := { h with position := s.pointerToRawData.toNat }) hpos hn (hlen ▸ hfile)
  rw [← heq] at hok hreads
  intro hr
  by_cases hshare : s.pointerToRawData.toNat + s.share percentage ≤ h.content.length
  · obtain ⟨chunks', -, hreads', hoff', -⟩ := hr.reads (by omega) (by omega) hshare
    -- the range that was read is too short
    obtain rfl : chunks = chunks' := List.append_cancel_left (hreads.symm.trans hreads')
    have hlength := congrArg List.length (hoff.symm.trans hoff')
    rw [List.length_range', List.length_range'] at hlength
    omega
  · rw [hr.fails (by omega) (by omega)] at hok
    cases hok

theorem readsShare_of_fails (hwrap : 2 ^ 32 ≤ s.initializedLength * percentage)
    (hf : (readThroughSection 32 h s percentage buffer).2 = false)
    (hno : s.pointerToRawData.toNat ≤ 2 ^ 31 - 1 →
      h.content.length < s.pointerToRawData.toNat + s.share percentage) :
    ReadsShare h s percentage buffer := by
  have hlt := (ImageSectionHeader.getPercentageOfSectionLength_lt hwrap).2
  refine ⟨fun h0 => ?_, fun _ hptr hfile => ?_, fun _ _ => hf⟩
  · omega
  · exact absurd (hno hptr) (by omega)

/-- **The share of a section**: it is read, or the read fails as it should, unless
the product wraps and the file has the bytes that the wrapped length asks for. -/
theorem section_read_iff (h : FileHandle) (s : ImageSectionHeader) (percentage : Nat)
    (buffer : TempBuffer) : ReadsShare h s percentage buffer ↔
      s.initializedLength * percentage < 2 ^ 32 ∨ 2 ^ 31 ≤ s.pointerToRawData.toNat ∨
        h.content.length < s.pointerToRawData.toNat +
          max (s.initializedLength * percentage % 2 ^ 32 / 100) 1 := by
  constructor
  · intro hr
    by_contra hno
    obtain ⟨hwrap, hptr, hfile⟩ : _ ∧ _ ∧ _ := by
      simpa only [not_or, Nat.not_lt, Nat.not_le] using hno
    exact not_readsShare hwrap hptr hfile hr
  · rintro (hfit | hptr | hfile)
    · exact readsShare_of_fits hfit
    · by_cases hfit : s.initializedLength * percentage < 2 ^ 32
      · exact readsShare_of_fits hfit
      · have hwrap := Nat.le_of_not_lt hfit
        have hlen := (ImageSectionHeader.getPercentageOfSectionLength_lt hwrap).1
        exact readsShare_of_fails hwrap (readThroughSection_far (by omega) hptr) (by omega)
    · by_cases hfit : s.initializedLength * percentage < 2 ^ 32
      · exact readsShare_of_fits hfit
      · have hwrap := Nat.le_of_not_lt hfit
        obtain ⟨hlen, hlt⟩ := ImageSectionHeader.getPercentageOfSectionLength_lt hwrap
        refine readsShare_of_fails hwrap ?_ (by omega)
        by_cases hptr : s.pointerToRawData.toNat ≤ 2 ^ 31 - 1
        · rw [readThroughSection_eq (by omega) hptr]
          exact readChunks_none buffer (h := { h with position := s.pointerToRawData.toNat })
            (by omega)
            (by rw [hlen]; exact hfile)
        · exact readThroughSection_far (by omega) (by omega)

/-- A section of 2 ^ 26 bytes, all of it asked for: the product is 2 ^ 32 times 25 / 16. -/
theorem not_section_read : ¬ ∀ h s percentage buffer, ReadsShare h s percentage buffer := by
  intro hall
  have hsection : (ImageSectionHeader.mk 0x4000000 0x1000 0x4000000 0x400).initializedLength =
      2 ^ 26 := rfl
  have hread := hall ⟨List.replicate (2 ^ 27) 0, 0, []⟩ ⟨0x4000000, 0x1000, 0x4000000, 0x400⟩ 100
    ⟨2 ^ 20, by decide⟩
  refine not_readsShare ?_ (by decide) ?_ hread
  · rw [hsection]
    decide
  · rw [hsection, List.length_replicate]
    decide

end Mdgate.Chrome
