import Mdgate.Chrome.PreReadSection

/-!
# Reading the headers of an image

`PartialPreReadImageOnDisk` reads the headers of a PE file into a vector in three
steps, each as far as what has been read asks for, and then queries the vector as
a `PEImage`. A read of a field outside the vector is an outcome of its own, and so
is a vector that cannot be enlarged: `resizes` says for which lengths it can be.

`e_lfanew` is signed, and the end of the NT headers is computed in `size_t`. A
small negative `e_lfanew` makes that end wrap to a small number, so nothing more
is read and the NT headers are looked up before the start of the vector. And the
vector is enlarged to what the file asks for before the file is found to be too
short: `header_reads_iff`.
-/

namespace Mdgate.Chrome

/-! ## Fields -/

/-- Why `PartialPreReadImageOnDisk` does not return. -/
inductive Stop where
  | checkFailed
  /-- It has looked outside the vector. -/
  | outOfBounds
  /-- The vector cannot be enlarged: a `length_error` or `bad_alloc`, which nothing catches. -/
  | badAlloc
  deriving DecidableEq, Repr

def littleEndian : List UInt8 → Nat
  | [] => 0
  | b :: rest => b.toNat + 256 * littleEndian rest

def field (bytes : List UInt8) (offset size : Nat) : Nat :=
  littleEndian ((bytes.drop offset).take size)

def readField (headers : List UInt8) (offset size : Nat) : Except Stop Nat :=
  if offset + size ≤ headers.length then .ok (field headers offset size)
  else .error .outOfBounds

def toLong (n : Nat) : Int := if n < 2 ^ 31 then n else n - 2 ^ 32

/-! ## `PEImage` -/

/-- The two builds: `IMAGE_NT_HEADERS` and `size_t` are of this size. -/
inductive Arch where
  | x86
  | x64
  deriving DecidableEq, Repr

namespace Arch

def bits : Arch → Nat
  | x86 => 32
  | x64 => 64

def sizeOfOptionalHeader : Arch → Nat
  | x86 => 224
  | x64 => 240

/-- `sizeof(IMAGE_NT_HEADERS)`: the signature, the file header, the optional header. -/
def sizeOfNTHeaders (arch : Arch) : Nat := 4 + 20 + arch.sizeOfOptionalHeader

def optionalHdrMagic : Arch → Nat
  | x86 => 0x10B
  | x64 => 0x20B

/-- `e_lfanew`, converted to a `size_t`. -/
def ntHeadersStart (arch : Arch) (eLfanew : Int) : Nat := (eLfanew % 2 ^ arch.bits).toNat

end Arch

def eLfanew (headers : List UInt8) : Except Stop Int := do
  return toLong (← readField headers 60 4)

/-- `PEImage::GetNTHeaders`, as an offset from the module. -/
def getNTHeaders (arch : Arch) (headers : List UInt8) : Except Stop Nat := do
  return arch.ntHeadersStart (← eLfanew headers)

def verifyMagic (arch : Arch) (headers : List UInt8) : Except Stop Bool := do
  if (← readField headers 0 2) ≠ 0x5A4D then return false
  else
    let nt ← getNTHeaders arch headers
    if (← readField headers nt 4) ≠ 0x4550 then return false
    else if (← readField headers (nt + 20) 2) ≠ arch.sizeOfOptionalHeader then return false
    else if (← readField headers (nt + 24) 2) ≠ arch.optionalHdrMagic then return false
    else return true

/-- `PEImage::GetSectionHeader`, as an offset. The callers ask for one section after
another and stop at the end of the vector, so the sum is in the address space. -/
def getSectionHeader (arch : Arch) (headers : List UInt8) (i : Nat) :
    Except Stop (Option Nat) := do
  let nt ← getNTHeaders arch headers
  let firstSection := nt + 24 + (← readField headers (nt + 20) 2)
  if i < (← readField headers (nt + 6) 2) then return some (firstSection + 40 * i)
  else return none

/-- The fields that `ReadThroughSection` reads. -/
def readSectionHeader (headers : List UInt8) (offset : Nat) :
    Except Stop ImageSectionHeader := do
  let virtualSize ← readField headers (offset + 8) 4
  let virtualAddress ← readField headers (offset + 12) 4
  let sizeOfRawData ← readField headers (offset + 16) 4
  let pointerToRawData ← readField headers (offset + 20) 4
  return ⟨.ofNat virtualSize, .ofNat virtualAddress, .ofNat sizeOfRawData,
    .ofNat pointerToRawData⟩

theorem littleEndian_lt (bytes : List UInt8) : littleEndian bytes < 256 ^ bytes.length := by
  induction bytes with
  | nil => decide
  | cons b rest ih =>
    have hb := b.toNat_lt
    rw [littleEndian, List.length_cons, Nat.pow_succ]
    omega

theorem field_lt (bytes : List UInt8) (offset size : Nat) :
    field bytes offset size < 256 ^ size := by
  have hlt := littleEndian_lt ((bytes.drop offset).take size)
  have hpow := Nat.pow_le_pow_right (show 0 < 256 by decide)
    (List.length_take_le size (bytes.drop offset))
  unfold field
  omega

theorem readField_ok {headers : List UInt8} {offset size : Nat}
    (h : offset + size ≤ headers.length) :
    readField headers offset size = .ok (field headers offset size) := by
  rw [readField, if_pos h]

theorem readField_lt {headers : List UInt8} {offset size n : Nat}
    (h : readField headers offset size = .ok n) : n < 256 ^ size := by
  unfold readField at h
  split at h
  · obtain rfl := Except.ok.inj h
    exact field_lt headers offset size
  · cases h

theorem ok_bind {α β : Type} (a : α) (f : α → Except Stop β) :
    (Except.ok a >>= f) = f a := rfl

theorem bind_eq_ok {α β : Type} {x : Except Stop α} {f : α → Except Stop β} {b : β}
    (h : x >>= f = .ok b) : ∃ a, x = .ok a ∧ f a = .ok b := by
  cases x with
  | error stop => cases h
  | ok a => exact ⟨a, rfl, h⟩

theorem getSectionHeader_lt {arch : Arch} {headers : List UInt8} {i offset : Nat}
    (h : getSectionHeader arch headers i = .ok (some offset)) : i < 65536 := by
  obtain ⟨nt, -, h⟩ := bind_eq_ok h
  obtain ⟨sizeOfOptionalHeader, -, h⟩ := bind_eq_ok h
  obtain ⟨numberOfSections, hn, h⟩ := bind_eq_ok h
  have hlt : numberOfSections < 256 ^ 2 := readField_lt hn
  split at h
  · omega
  · cases h

/-! ## `PartialPreReadImageOnDisk` -/

/-- `ReadMissingBytes`: the vector, if it has been read up to the length. It is enlarged before the
file is read. -/
def readMissingBytes (resizes : Nat → Bool) (file : FileHandle) (current : List UInt8)
    (desiredLength : Nat) : Except Stop (FileHandle × Option (List UInt8)) :=
  if desiredLength ≤ current.length then return (file, some current)
  else if resizes desiredLength then
    let r := file.readNextBytes (desiredLength - current.length)
    return (r.1, r.2.map (current ++ ·))
  else throw .badAlloc

def readSections (arch : Arch) (headers : List UInt8) (percentage : Nat) (buffer : TempBuffer)
    (file : FileHandle) (i : Nat) : Except Stop Bool :=
  match _h : getSectionHeader arch headers i with
  | .error stop => .error stop
  | .ok none => .ok true
  | .ok (some offset) =>
    if offset + 40 ≤ headers.length then
      match readSectionHeader headers offset with
      | .error stop => .error stop
      | .ok header =>
        let r := readThroughSection arch.bits file header percentage buffer
        if r.2 then readSections arch headers percentage buffer r.1 (i + 1) else .ok false
    else .error .checkFailed
termination_by 65536 - i
decreasing_by
  have hlt := getSectionHeader_lt _h
  omega

/-- `PartialPreReadImageOnDisk` once the headers have been read. -/
def preReadSections (arch : Arch) (virtualAlloc : Bool) (percentage : Nat) (buffer : TempBuffer)
    (file : FileHandle) (headers : List UInt8) : Except Stop Bool := do
  if ← verifyMagic arch headers then
    if virtualAlloc then readSections arch headers percentage buffer file 0 else return false
  else throw .checkFailed

/-- `headers[nt_headers_start]` and its `SizeOfHeaders`. -/
def sizeOfHeaders (headers : List UInt8) (ntHeadersStart : Nat) : Except Stop Nat :=
  if ntHeadersStart < headers.length then readField headers (ntHeadersStart + 84) 4
  else throw .outOfBounds

/-- `PartialPreReadImageOnDisk` once the NT headers have been read. -/
def preReadHeaders (arch : Arch) (resizes : Nat → Bool) (virtualAlloc : Bool) (percentage : Nat)
    (buffer : TempBuffer) (ntHeadersStart : Nat) (file : FileHandle) (headers : List UInt8) :
    Except Stop Bool := do
  match ← readMissingBytes resizes file headers (← sizeOfHeaders headers ntHeadersStart) with
  | (_, none) => return false
  | (file, some headers) => preReadSections arch virtualAlloc percentage buffer file headers

/-- `PartialPreReadImageOnDisk` of a file that `CreateFile` opens. The first 1024 bytes of the
vector are those that it reserves. -/
def partialPreReadImageOnDisk (arch : Arch) (resizes : Nat → Bool) (content : List UInt8)
    (virtualAlloc : Bool) (percentage maxChunkSize : Nat) : Except Stop Bool :=
  if percentage = 0 then return true
  else do
    match ← readMissingBytes resizes ⟨content, 0, []⟩ [] 1024 with
    | (_, none) => return false
    | (file, some headers) =>
      let ntHeadersStart := arch.ntHeadersStart (← eLfanew headers)
      let ntHeadersEnd := (ntHeadersStart + arch.sizeOfNTHeaders) % 2 ^ arch.bits
      match ← readMissingBytes resizes file headers ntHeadersEnd with
      | (_, none) => return false
      | (file, some headers) =>
        preReadHeaders arch resizes virtualAlloc (min percentage 100)
          ⟨max maxChunkSize (1024 * 1024), by omega⟩ ntHeadersStart file headers

/-! ## Looking inside -/

def lfanew (content : List UInt8) : Int := toLong (field content 60 4)

/-- Where the NT headers of the file start and end. -/
def ntStart (arch : Arch) (content : List UInt8) : Nat := arch.ntHeadersStart (lfanew content)

def ntEnd (arch : Arch) (content : List UInt8) : Nat := ntStart arch content + arch.sizeOfNTHeaders

def headersSize (arch : Arch) (content : List UInt8) : Nat :=
  field content (ntStart arch content + 84) 4

/-- The ranges of the NT headers and of `SizeOfHeaders` are in the file. -/
def HeadersInFile (arch : Arch) (content : List UInt8) : Prop :=
  ntEnd arch content ≤ content.length ∧ headersSize arch content ≤ content.length

/-- `e_lfanew` is negative by no more than the size of the NT headers. -/
def SmallNegative (arch : Arch) (content : List UInt8) : Prop :=
  lfanew content < 0 ∧ -(arch.sizeOfNTHeaders : Int) ≤ lfanew content

/-- The vector can be enlarged to each length that is asked for: to the first 1024 bytes, to the
end of the NT headers if that is more, and to `SizeOfHeaders` if the NT headers have been read,
which they are if they are in the file and no more than a `DWORD` is missing of them. -/
structure CanResize (arch : Arch) (resizes : Nat → Bool) (content : List UInt8) : Prop where
  first : resizes 1024 = true
  ntHeaders : 1024 ≤ content.length → 1024 < ntEnd arch content →
    resizes (ntEnd arch content) = true
  headers : 1024 ≤ content.length → ntEnd arch content ≤ content.length →
    ntEnd arch content ≤ 1024 + (2 ^ 32 - 1) → 1024 < headersSize arch content →
      ntEnd arch content < headersSize arch content → resizes (headersSize arch content) = true

/-- Nothing outside what has been read is looked at, and `false` is returned when the headers
that are to be read are not there; at a percentage of zero none are to be read. -/
structure StaysInside (arch : Arch) (content : List UInt8) (percentage : Nat)
    (outcome : Except Stop Bool) : Prop where
  inside : outcome ≠ .error .outOfBounds
  fails : percentage ≠ 0 → ¬ HeadersInFile arch content → outcome = .ok false

theorem staysInside_false {arch : Arch} {content : List UInt8} {percentage : Nat} :
    StaysInside arch content percentage (.ok false) :=
  ⟨(fun heq => nomatch heq), fun _ _ => rfl⟩

theorem staysInside_badAlloc {arch : Arch} {content : List UInt8} {percentage : Nat}
    (hper : percentage ≠ 0) :
    StaysInside arch content percentage (.error .badAlloc) ↔ HeadersInFile arch content := by
  refine ⟨fun h => ?_, fun h => ⟨(fun heq => nomatch heq), fun _ hno => absurd h hno⟩⟩
  by_contra hno
  cases h.fails hper hno

section Headers

variable {arch : Arch} {resizes : Nat → Bool} {content headers headers' : List UInt8}
  {file file' : FileHandle}

/-- The vector is what has been read of the file. -/
structure ReadSoFar (content : List UInt8) (file : FileHandle) (headers : List UInt8) : Prop where
  fileContent : file.content = content
  position : file.position = headers.length
  isPrefix : headers = content.take headers.length

theorem ReadSoFar.length_le (h : ReadSoFar content file headers) :
    headers.length ≤ content.length := by
  have hlen := congrArg List.length h.isPrefix
  rw [List.length_take] at hlen
  omega

theorem ReadSoFar.field_eq (h : ReadSoFar content file headers) {offset size : Nat}
    (hin : offset + size ≤ headers.length) :
    field headers offset size = field content offset size := by
  unfold field
  rw [h.isPrefix, List.drop_take, List.take_take, Nat.min_eq_left (by omega)]

/-- A vector is extended only by the bytes that are missing, all of them. -/
theorem ReadSoFar.extend (h : ReadSoFar content file headers) {desiredLength : Nat}
    (hr : readMissingBytes resizes file headers desiredLength = .ok (file', some headers')) :
    ReadSoFar content file' headers' ∧ desiredLength ≤ headers'.length ∧
      headers.length ≤ headers'.length := by
  unfold readMissingBytes at hr
  split at hr
  · rename_i hle
    obtain ⟨rfl, hheaders⟩ := Prod.mk.inj (Except.ok.inj hr)
    obtain rfl := Option.some.inj hheaders
    exact ⟨h, hle, Nat.le_refl _⟩
  · rename_i hlt
    split at hr
    swap
    · cases hr
    obtain ⟨rfl, hbytes⟩ := Prod.mk.inj (Except.ok.inj hr)
    obtain ⟨bytes, hnext, rfl⟩ := Option.map_eq_some_iff.mp hbytes
    obtain ⟨hmax, hfits⟩ := FileHandle.readNextBytes_fits (by omega) hnext
    rw [FileHandle.readNextBytes_some hmax hfits] at hnext ⊢
    obtain rfl := Option.some.inj hnext
    rw [h.fileContent, h.position] at hfits ⊢
    have hlen : ((content.drop headers.length).take (desiredLength - headers.length)).length =
        desiredLength - headers.length := by
      rw [List.length_take, List.length_drop]
      omega
    refine ⟨⟨rfl, ?_, ?_⟩, ?_, ?_⟩
    · rw [List.length_append, hlen]
    · rw [List.length_append, hlen, List.take_add, ← h.isPrefix]
    · rw [List.length_append, hlen]
      omega
    · rw [List.length_append]
      omega

variable (file) in
theorem readMissingBytes_missing {desiredLength : Nat} (hlt : headers.length < desiredLength)
    (hresize : resizes desiredLength = true) :
    readMissingBytes resizes file headers desiredLength =
      .ok ((file.readNextBytes (desiredLength - headers.length)).1,
        (file.readNextBytes (desiredLength - headers.length)).2.map (headers ++ ·)) := by
  rw [readMissingBytes, if_neg (Nat.not_le.mpr hlt), if_pos hresize]
  rfl

variable (resizes) in
theorem ReadSoFar.readMissingBytes_cases (h : ReadSoFar content file headers) (desiredLength : Nat) :
    (headers.length < desiredLength ∧ resizes desiredLength = false ∧
      readMissingBytes resizes file headers desiredLength = .error .badAlloc) ∨
    (headers.length < desiredLength ∧ resizes desiredLength = true ∧
      (content.length < desiredLength ∨ headers.length + (2 ^ 32 - 1) < desiredLength) ∧
      ∃ file', readMissingBytes resizes file headers desiredLength = .ok (file', none)) ∨
    ((headers.length < desiredLength → resizes desiredLength = true ∧
        desiredLength ≤ headers.length + (2 ^ 32 - 1)) ∧
      ∃ file' headers', readMissingBytes resizes file headers desiredLength =
          .ok (file', some headers') ∧ ReadSoFar content file' headers' ∧
        headers'.length = max headers.length desiredLength) := by
  by_cases hle : desiredLength ≤ headers.length
  · refine .inr (.inr ⟨fun hlt => absurd hle (Nat.not_le.mpr hlt), file, headers, ?_, h, ?_⟩)
    · rw [readMissingBytes, if_pos hle]
      rfl
    · omega
  · have hlt : headers.length < desiredLength := by omega
    by_cases hresize : resizes desiredLength = true
    · have hr := readMissingBytes_missing file hlt hresize
      cases hnext : (file.readNextBytes (desiredLength - headers.length)).2 with
      | none =>
        rw [hnext] at hr
        refine .inr (.inl ⟨hlt, hresize, ?_, _, hr⟩)
        by_contra hno
        have hfits : file.position + (desiredLength - headers.length) ≤ file.content.length := by
          rw [h.fileContent, h.position]
          omega
        rw [FileHandle.readNextBytes_some (by omega) hfits] at hnext
        cases hnext
      | some bytes =>
        rw [hnext] at hr
        obtain ⟨hmax, -⟩ := FileHandle.readNextBytes_fits (by omega) hnext
        have hbytes : bytes.length = desiredLength - headers.length := by
          unfold FileHandle.readNextBytes at hnext
          rw [if_pos hmax] at hnext
          dsimp only at hnext
          split at hnext
          · next hlen => exact Option.some.inj hnext ▸ hlen
          · cases hnext
        refine .inr (.inr ⟨fun _ => ⟨hresize, by omega⟩, _, _, hr, (h.extend hr).1, ?_⟩)
        rw [List.length_append, hbytes]
        omega
    · refine .inl ⟨hlt, by simpa using hresize, ?_⟩
      rw [readMissingBytes, if_neg hle, if_neg hresize]
      rfl

/-- The vector has the NT headers. -/
structure HasNTHeaders (arch : Arch) (headers : List UInt8) (nt : Nat) : Prop where
  dos : 64 ≤ headers.length
  start : nt = arch.ntHeadersStart (toLong (field headers 60 4))
  le : nt + arch.sizeOfNTHeaders ≤ headers.length

namespace HasNTHeaders

variable {nt i : Nat}

theorem getNTHeaders (h : HasNTHeaders arch headers nt) :
    getNTHeaders arch headers = .ok nt := by
  have hdos := h.dos
  rw [h.start]
  unfold Chrome.getNTHeaders eLfanew
  rw [readField_ok (by omega)]
  rfl

theorem readField (h : HasNTHeaders arch headers nt) (offset : Nat) {size : Nat}
    (hin : offset + size ≤ 248) :
    readField headers (nt + offset) size = .ok (field headers (nt + offset) size) := by
  have hle := h.le
  have hsize : 248 ≤ arch.sizeOfNTHeaders := by cases arch <;> decide
  exact readField_ok (by omega)

/-- `VerifyMagic` looks at nothing else, and at the size of the optional header. -/
theorem verifyMagic (h : HasNTHeaders arch headers nt) :
    ∃ b, verifyMagic arch headers = .ok b ∧
      (b = true → field headers (nt + 20) 2 = arch.sizeOfOptionalHeader) := by
  have hdos := h.dos
  have hmagic : Chrome.readField headers 0 2 = .ok (field headers 0 2) := readField_ok (by omega)
  have hsignature : Chrome.readField headers nt 4 = .ok (field headers nt 4) :=
    h.readField 0 (by omega)
  unfold Chrome.verifyMagic
  simp only [hmagic, h.getNTHeaders, hsignature, h.readField 20 (show 20 + 2 ≤ 248 by omega),
    h.readField 24 (show 24 + 2 ≤ 248 by omega), ok_bind]
  split
  · exact ⟨false, rfl, fun hb => nomatch hb⟩
  · split
    · exact ⟨false, rfl, fun hb => nomatch hb⟩
    · split
      · exact ⟨false, rfl, fun hb => nomatch hb⟩
      · rename_i hsize
        split
        · exact ⟨false, rfl, fun hb => nomatch hb⟩
        · exact ⟨true, rfl, fun _ => not_not.mp hsize⟩

theorem getSectionHeader (h : HasNTHeaders arch headers nt)
    (hsize : field headers (nt + 20) 2 = arch.sizeOfOptionalHeader) :
    getSectionHeader arch headers i =
      .ok (if i < field headers (nt + 6) 2 then some (nt + arch.sizeOfNTHeaders + 40 * i)
        else none) := by
  unfold Chrome.getSectionHeader
  simp only [h.getNTHeaders, h.readField 20 (show 20 + 2 ≤ 248 by omega),
    h.readField 6 (show 6 + 2 ≤ 248 by omega), ok_bind, hsize]
  have hfirst : nt + 24 + arch.sizeOfOptionalHeader = nt + arch.sizeOfNTHeaders := by
    unfold Arch.sizeOfNTHeaders
    omega
  rw [hfirst]
  split <;> rfl

end HasNTHeaders

/-- A section header that passes the CHECK is in the vector. -/
theorem readSectionHeader_ok {offset : Nat} (h : offset + 40 ≤ headers.length) :
    ∃ header, readSectionHeader headers offset = .ok header := by
  unfold readSectionHeader
  rw [readField_ok (by omega), readField_ok (by omega), readField_ok (by omega),
    readField_ok (by omega)]
  exact ⟨_, rfl⟩

/-- The loop over the sections looks at nothing outside the vector. -/
theorem readSections_inside {nt i percentage : Nat} {buffer : TempBuffer}
    (h : HasNTHeaders arch headers nt)
    (hsize : field headers (nt + 20) 2 = arch.sizeOfOptionalHeader) :
    readSections arch headers percentage buffer file i ≠ .error .outOfBounds := by
  fun_induction readSections arch headers percentage buffer file i with
  | case1 file i stop hget =>
    rw [h.getSectionHeader hsize] at hget
    cases hget
  | case2 => exact fun heq => nomatch heq
  | case3 file i offset hget hin stop hread =>
    obtain ⟨header, hheader⟩ := readSectionHeader_ok hin
    rw [hheader] at hread
    cases hread
  | case4 file i offset hget hin header hread r hr ih => exact ih
  | case5 => exact fun heq => nomatch heq
  | case6 => exact fun heq => nomatch heq

theorem preReadSections_inside {nt percentage : Nat} {buffer : TempBuffer} {virtualAlloc : Bool}
    (h : HasNTHeaders arch headers nt) :
    preReadSections arch virtualAlloc percentage buffer file headers ≠ .error .outOfBounds := by
  obtain ⟨b, hb, hsize⟩ := h.verifyMagic
  unfold preReadSections
  rw [hb, ok_bind]
  cases b with
  | false => exact fun heq => nomatch heq
  | true =>
    cases virtualAlloc with
    | false => exact fun heq => nomatch heq
    | true => exact readSections_inside h (hsize rfl)

/-- With the NT headers read, nothing outside the vector is looked at; it is as it should be when
the headers are in the file, or the vector can be enlarged to find that they are not. -/
theorem preReadHeaders_iff {share percentage : Nat} {buffer : TempBuffer} {virtualAlloc : Bool}
    (hper : percentage ≠ 0) (h : ReadSoFar content file headers)
    (hnt : HasNTHeaders arch headers (ntStart arch content)) :
    StaysInside arch content percentage
      (preReadHeaders arch resizes virtualAlloc share buffer (ntStart arch content) file headers) ↔
      HeadersInFile arch content ∨
        (headers.length < headersSize arch content → resizes (headersSize arch content) = true) := by
  have hle := hnt.le
  have hlen := h.length_le
  have hsize : 248 ≤ arch.sizeOfNTHeaders := by cases arch <;> decide
  have hfield : sizeOfHeaders headers (ntStart arch content) = .ok (headersSize arch content) := by
    rw [sizeOfHeaders, if_pos (by omega), hnt.readField 84 (by omega), h.field_eq (by omega)]
    rfl
  unfold preReadHeaders
  rw [hfield, ok_bind]
  rcases h.readMissingBytes_cases resizes (headersSize arch content) with
    ⟨hlt, hresize, hr⟩ | ⟨hlt, hresize, -, file', hr⟩ | ⟨hresize, file', headers', hr, h', hlen'⟩
  · rw [hr]
    refine (staysInside_badAlloc hper).trans ⟨.inl, fun hor => hor.resolve_right fun hall => ?_⟩
    rw [hall hlt] at hresize
    cases hresize
  · rw [hr]
    exact ⟨fun _ => .inr fun _ => hresize, fun _ => staysInside_false⟩
  · rw [hr]
    have hnt' : HasNTHeaders arch headers' (ntStart arch content) := by
      have hdos := hnt.dos
      refine ⟨by omega, ?_, by omega⟩
      rw [h'.field_eq (by omega)]
      rfl
    have hfile := h'.length_le
    refine ⟨fun _ => .inr fun hlt => (hresize hlt).1, fun _ => ?_⟩
    refine ⟨preReadSections_inside hnt', fun _ hno => absurd ⟨?_, ?_⟩ hno⟩
    · unfold ntEnd
      omega
    · omega

end Headers

section Start

variable {arch : Arch} {e : Int}

theorem toLong_bounds (bytes : List UInt8) :
    -2 ^ 31 ≤ toLong (field bytes 60 4) ∧ toLong (field bytes 60 4) < 2 ^ 31 := by
  have hlt : field bytes 60 4 < 256 ^ 4 := field_lt bytes 60 4
  unfold toLong
  split <;> omega

/-- The end of the NT headers does not wrap, for all but a small negative `e_lfanew`. -/
theorem ntHeadersEnd_lt (hlow : -2 ^ 31 ≤ e) (hhigh : e < 2 ^ 31)
    (h : 0 ≤ e ∨ e < -(arch.sizeOfNTHeaders : Int)) :
    arch.ntHeadersStart e + arch.sizeOfNTHeaders < 2 ^ arch.bits := by
  unfold Arch.ntHeadersStart
  cases arch <;> simp only [Arch.sizeOfNTHeaders, Arch.sizeOfOptionalHeader, Arch.bits] at h ⊢ <;>
    omega

/-- With a small negative `e_lfanew` the NT headers end before they start. -/
theorem ntHeadersEnd_wraps (hneg : e < 0) (h : -(arch.sizeOfNTHeaders : Int) ≤ e) :
    1024 ≤ arch.ntHeadersStart e ∧
      (arch.ntHeadersStart e + arch.sizeOfNTHeaders) % 2 ^ arch.bits ≤ 1024 := by
  unfold Arch.ntHeadersStart
  cases arch <;> simp only [Arch.sizeOfNTHeaders, Arch.sizeOfOptionalHeader, Arch.bits] at h ⊢ <;>
    omega

end Start

section Main

variable {arch : Arch} {resizes : Nat → Bool} {content : List UInt8} {virtualAlloc : Bool}
  {percentage maxChunkSize : Nat}

theorem readSoFar_nil (content : List UInt8) : ReadSoFar content ⟨content, 0, []⟩ [] :=
  ⟨rfl, rfl, rfl⟩

theorem eLfanew_first {file : FileHandle} {headers : List UInt8}
    (h : ReadSoFar content file headers) (hlen : headers.length = 1024) :
    eLfanew headers = .ok (lfanew content) := by
  unfold eLfanew
  rw [readField_ok (by omega), h.field_eq (by omega)]
  rfl

variable (arch virtualAlloc maxChunkSize) in
/-- The first 1024 bytes are read, and `e_lfanew` is in them. -/
theorem read_first (hper : percentage ≠ 0) (hfirst : resizes 1024 = true)
    (hlen : 1024 ≤ content.length) : ∃ file headers, ReadSoFar content file headers ∧
      headers.length = 1024 ∧
      partialPreReadImageOnDisk arch resizes content virtualAlloc percentage maxChunkSize =
        (readMissingBytes resizes file headers (ntEnd arch content % 2 ^ arch.bits) >>= fun r =>
          match r with
          | (_, none) => return false
          | (file, some headers) => preReadHeaders arch resizes virtualAlloc (min percentage 100)
            ⟨max maxChunkSize (1024 * 1024), by omega⟩ (ntStart arch content) file headers) := by
  rcases (readSoFar_nil content).readMissingBytes_cases resizes 1024 with
    ⟨-, hno, -⟩ | ⟨-, -, hshort, -⟩ | ⟨-, file, headers, hr, h, hlen'⟩
  · rw [hfirst] at hno
    cases hno
  · rw [List.length_nil] at hshort
    omega
  · rw [List.length_nil] at hlen'
    refine ⟨file, headers, h, by omega, ?_⟩
    unfold partialPreReadImageOnDisk
    simp only [if_neg hper, hr, ok_bind, eLfanew_first h (by omega)]
    rfl

theorem badAlloc_of_first (hper : percentage ≠ 0) (hfirst : resizes 1024 = false) :
    partialPreReadImageOnDisk arch resizes content virtualAlloc percentage maxChunkSize =
      .error .badAlloc := by
  have hr : readMissingBytes resizes ⟨content, 0, []⟩ [] 1024 = .error .badAlloc := by
    rw [readMissingBytes, if_neg (by decide), hfirst]
    rfl
  unfold partialPreReadImageOnDisk
  rw [if_neg hper, hr]
  rfl

theorem eq_false_of_short (hper : percentage ≠ 0) (hfirst : resizes 1024 = true)
    (hlen : content.length < 1024) :
    partialPreReadImageOnDisk arch resizes content virtualAlloc percentage maxChunkSize =
      .ok false := by
  unfold partialPreReadImageOnDisk
  rw [if_neg hper]
  rcases (readSoFar_nil content).readMissingBytes_cases resizes 1024 with
    ⟨-, hno, -⟩ | ⟨-, -, -, file, hr⟩ | ⟨-, file, headers, hr, h, hlen'⟩
  · rw [hfirst] at hno
    cases hno
  · rw [hr]
    rfl
  · have hfile := h.length_le
    rw [List.length_nil] at hlen'
    omega

/-- A file with a small negative `e_lfanew` is looked up outside the vector. -/
theorem outOfBounds_of_small (hper : percentage ≠ 0) (hfirst : resizes 1024 = true)
    (hlen : 1024 ≤ content.length) (hsmall : SmallNegative arch content) :
    partialPreReadImageOnDisk arch resizes content virtualAlloc percentage maxChunkSize =
      .error .outOfBounds := by
  obtain ⟨hstart, hend⟩ := ntHeadersEnd_wraps hsmall.1 hsmall.2
  obtain ⟨file, headers, -, hlen', he⟩ := read_first arch virtualAlloc maxChunkSize hper
    hfirst hlen
  have hsame : readMissingBytes resizes file headers (ntEnd arch content % 2 ^ arch.bits) =
      .ok (file, some headers) := by
    rw [readMissingBytes, if_pos]
    · rfl
    · rw [hlen']
      exact hend
  have hout : sizeOfHeaders headers (ntStart arch content) = .error .outOfBounds := by
    rw [sizeOfHeaders, if_neg]
    · rfl
    · rw [hlen']
      exact Nat.not_lt.mpr hstart
  rw [he, hsame, ok_bind]
  simp only [preReadHeaders, hout]
  rfl

theorem ntEnd_lt (hlarge : ¬ SmallNegative arch content) :
    ntEnd arch content < 2 ^ arch.bits := by
  obtain ⟨hlow, hhigh⟩ := toLong_bounds content
  refine ntHeadersEnd_lt (e := lfanew content) hlow hhigh ?_
  unfold SmallNegative at hlarge
  omega

/-- Any other `e_lfanew` is read up to the end of its NT headers, and then all is inside. -/
theorem staysInside_of_large (hper : percentage ≠ 0) (hfirst : resizes 1024 = true)
    (hlen : 1024 ≤ content.length) (hlarge : ¬ SmallNegative arch content) :
    StaysInside arch content percentage
      (partialPreReadImageOnDisk arch resizes content virtualAlloc percentage maxChunkSize) ↔
      HeadersInFile arch content ∨ CanResize arch resizes content := by
  obtain ⟨file, headers, h, hlen', he⟩ := read_first arch virtualAlloc maxChunkSize hper
    hfirst hlen
  rw [he, Nat.mod_eq_of_lt (ntEnd_lt hlarge)]
  rcases h.readMissingBytes_cases resizes (ntEnd arch content) with
    ⟨hlt, hresize, hr⟩ | ⟨hlt, hresize, hshort, file', hr⟩ |
    ⟨hresize, file', headers', hr, h', hlen''⟩
  · -- the vector cannot take the NT headers
    rw [hr]
    refine (staysInside_badAlloc hper).trans ⟨.inl, fun hor => hor.resolve_right fun hcan => ?_⟩
    rw [hcan.ntHeaders hlen (by omega)] at hresize
    cases hresize
  · -- they are not in the file
    rw [hr]
    refine ⟨fun _ => .inr ⟨hfirst, fun _ _ => hresize, fun _ hin hmax => ?_⟩,
      fun _ => staysInside_false⟩
    omega
  · rw [hr]
    have hfile := h'.length_le
    have hnt : HasNTHeaders arch headers' (ntStart arch content) := by
      refine ⟨by omega, ?_, ?_⟩
      · rw [h'.field_eq (by omega)]
        rfl
      · unfold ntEnd at hlen''
        omega
    refine (preReadHeaders_iff hper h' hnt).trans (or_congr_right ⟨fun hsize => ?_, fun hcan => ?_⟩)
    · refine ⟨hfirst, fun _ hlt => (hresize (by omega)).1, fun _ _ _ hlt hlt' => ?_⟩
      exact hsize (by omega)
    · intro hlt
      refine hcan.headers hlen (by omega) ?_ (by omega) (by omega)
      by_cases hle : ntEnd arch content ≤ 1024
      · omega
      · have hmax := (hresize (by omega)).2
        omega

/-- **Header reads**: they stay inside what was read, and `false` is returned for headers that are
not in the file, unless `e_lfanew` is negative by no more than the size of the NT headers, or the
vector cannot be enlarged to find out. -/
theorem header_reads_iff (arch : Arch) (resizes : Nat → Bool) (content : List UInt8)
    (virtualAlloc : Bool) (percentage maxChunkSize : Nat) :
    StaysInside arch content percentage
      (partialPreReadImageOnDisk arch resizes content virtualAlloc percentage maxChunkSize) ↔
      percentage = 0 ∨
        (HeadersInFile arch content ∨ CanResize arch resizes content) ∧
          (content.length < 1024 ∨ resizes 1024 = false ∨ ¬ SmallNegative arch content) := by
  by_cases hper : percentage = 0
  · -- nothing is read
    refine ⟨fun _ => .inl hper, fun _ => ⟨?_, fun hne => absurd hper hne⟩⟩
    rw [partialPreReadImageOnDisk, if_pos hper]
    exact fun heq => nomatch heq
  rw [or_iff_right hper]
  by_cases hfirst : resizes 1024 = true
  swap
  · -- the vector cannot take the first bytes
    have hfalse : resizes 1024 = false := by simpa using hfirst
    rw [badAlloc_of_first hper hfalse]
    refine (staysInside_badAlloc hper).trans ⟨fun h => ⟨.inl h, .inr (.inl hfalse)⟩, fun h => ?_⟩
    exact h.1.resolve_right fun hcan => hfirst hcan.first
  by_cases hlen : content.length < 1024
  · -- the first read fails
    rw [eq_false_of_short hper hfirst hlen]
    refine ⟨fun _ => ⟨.inr ⟨hfirst, fun _ => ?_, fun _ => ?_⟩, .inl hlen⟩,
      fun _ => staysInside_false⟩
    · omega
    · omega
  by_cases hsmall : SmallNegative arch content
  · refine ⟨fun h => absurd ?_ h.inside, fun ⟨_, h⟩ => ?_⟩
    · exact outOfBounds_of_small hper hfirst (Nat.le_of_not_lt hlen) hsmall
    · rcases h with h | h | h
      · exact absurd h hlen
      · rw [hfirst] at h
        cases h
      · exact absurd hsmall h
  · rw [staysInside_of_large hper hfirst (Nat.le_of_not_lt hlen) hsmall]
    exact ⟨fun h => ⟨h, .inr (.inr hsmall)⟩, fun h => h.1⟩

/-- A file of 1024 bytes whose `e_lfanew` is -1. -/
theorem not_header_reads : ¬ ∀ arch resizes content virtualAlloc percentage maxChunkSize,
    1024 ≤ content.length → StaysInside arch content percentage
      (partialPreReadImageOnDisk arch resizes content virtualAlloc percentage maxChunkSize) := by
  intro h
  have hlen : (List.replicate 60 0 ++ List.replicate 964 (255 : UInt8)).length = 1024 := by
    rw [List.length_append, List.length_replicate, List.length_replicate]
  have hlfanew : lfanew (List.replicate 60 0 ++ List.replicate 964 255) = -1 := by decide
  refine (h .x86 (fun _ => true) _ true 100 0 (Nat.le_of_eq hlen.symm)).inside
    (outOfBounds_of_small (by decide) rfl (Nat.le_of_eq hlen.symm) ⟨?_, ?_⟩)
  · rw [hlfanew]
    decide
  · rw [hlfanew]
    decide

/-- The vector is enlarged for a large negative `e_lfanew` before the file is found to be too
short. -/
theorem badAlloc_of_large (hper : percentage ≠ 0) (hfirst : resizes 1024 = true)
    (hlen : 1024 ≤ content.length) (hlarge : ¬ SmallNegative arch content)
    (hend : 1024 < ntEnd arch content) (hresize : resizes (ntEnd arch content) = false) :
    partialPreReadImageOnDisk arch resizes content virtualAlloc percentage maxChunkSize =
      .error .badAlloc := by
  obtain ⟨file, headers, -, hlen', he⟩ := read_first arch virtualAlloc maxChunkSize hper
    hfirst hlen
  rw [he, Nat.mod_eq_of_lt (ntEnd_lt hlarge), readMissingBytes, if_neg (by omega), hresize]
  rfl

end Main

end Mdgate.Chrome
