import Mathlib.Data.Nat.Bitwise
import Mdgate.Base.Strings

/-!
# UTF-8 and UTF-16

The macros of `icu_utf.h`, `ReadUnicodeCharacter` and `WriteUnicodeCharacter`, and
the converters over them. A valid code point is a `Char`; the error value of a
read is `none`.
-/

namespace Mdgate.Base

open Mdgate.Lib

def isValidCodepoint (n : Nat) : Bool := n < 0xD800 || (0xE000 ≤ n && n ≤ 0x10FFFF)

/-- The code point of a read, where it is valid. -/
def codePoint (n : Nat) : Option Char := if isValidCodepoint n then some (Char.ofNat n) else none

def isSurrogate (c : Nat) : Bool := c &&& 0xfffff800 == 0xd800

/-! ## UTF-8 -/

namespace Utf8

def countTrailBytes (leadByte : UInt8) : Nat :=
  if leadByte < 0xc0 then 0
  else if leadByte < 0xe0 then 1
  else if leadByte < 0xf0 then 2
  else if leadByte < 0xf8 then 3
  else if leadByte < 0xfc then 4
  else if leadByte < 0xfe then 5
  else 0

def maskLeadByte (leadByte : UInt8) (countTrailBytes : Nat) : Nat :=
  leadByte.toNat &&& (1 <<< (6 - countTrailBytes) - 1)

def isLead (c : UInt8) : Bool := c - 0xc0 < 0x3e

def isTrail (c : UInt8) : Bool := c &&& 0xc0 == 0x80

def minLegal : Nat → Nat
  | 0 => 0
  | 1 => 0x80
  | 2 => 0x800
  | _ => 0x10000

/-- The `switch` of `utf8_nextCharSafeBody` from `case count` on, each case falling
through to the next: the code point and `illegal`. -/
def readTrail : Nat → Nat → Bytes → Nat × Bool
  | count + 1, c, trail :: s =>
    let c := c <<< 6 ||| (trail.toNat &&& 0x3f)
    -- outside Unicode
    if count = 2 ∧ ¬ c < 0x110 then (c, true)
    else ((readTrail count c s).1, !isTrail trail || (readTrail count c s).2)
  | _, c, _ => (c, false)

/-- The error path: at most `count` trail bytes are skipped. -/
def skipTrail : Nat → Bytes → Bytes
  | count + 1, b :: s => if isTrail b then skipTrail count s else b :: s
  | _, s => s

/-- `utf8_nextCharSafeBody` with `strict` -1, at the byte `c` before `s`. -/
def nextCharSafeBody (c : UInt8) (s : Bytes) : Option Nat × Bytes :=
  let count := countTrailBytes c
  if count ≤ s.length then
    if count = 0 then (none, s)
    else
      let lead := maskLeadByte c count
      let r := if 4 ≤ count then (lead, true) else readTrail count lead s
      if r.2 || r.1 < minLegal count || isSurrogate r.1 then (none, skipTrail count s)
      else (some r.1, s.drop count)
  else (none, s.dropWhile isTrail)

def next (c : UInt8) (s : Bytes) : Option Nat × Bytes :=
  if 0x80 ≤ c then if isLead c then nextCharSafeBody c s else (none, s)
  else (some c.toNat, s)

def readUnicodeCharacter (c : UInt8) (s : Bytes) : Option Char × Bytes :=
  ((next c s).1.bind codePoint, (next c s).2)

/-- The trail byte that `CBU8_APPEND_UNSAFE` makes of the low bits of `n`. -/
def trailByte (n : Nat) : UInt8 := (n &&& 0x3f ||| 0x80).toUInt8

def writeUnicodeCharacter (c : Char) : Bytes :=
  let n := c.toNat
  if n ≤ 0x7f then [n.toUInt8]
  else if n ≤ 0x7ff then [(n >>> 6 ||| 0xc0).toUInt8, trailByte n]
  else if n ≤ 0xffff then [(n >>> 12 ||| 0xe0).toUInt8, trailByte (n >>> 6), trailByte n]
  else [(n >>> 18 ||| 0xf0).toUInt8, trailByte (n >>> 12), trailByte (n >>> 6), trailByte n]

end Utf8

/-! ## UTF-16 -/

namespace Utf16

def isSurrogateLead (c : Nat) : Bool := c &&& 0x400 == 0

def isTrail (c : Nat) : Bool := c &&& 0xfffffc00 == 0xdc00

def getSupplementary (lead trail : Nat) : Nat :=
  lead <<< 10 + trail - (0xd800 <<< 10 + 0xdc00 - 0x10000)

/-- `ReadUnicodeCharacter`, at the unit `c` before `s`. -/
def readUnicodeCharacter (c : UInt16) (s : String16) : Option Char × String16 :=
  if isSurrogate c.toNat then
    match s with
    | d :: rest =>
      if !isSurrogateLead c.toNat || !isTrail d.toNat then (none, s)
      else (codePoint (getSupplementary c.toNat d.toNat), rest)
    | [] => (none, s)
  else (codePoint c.toNat, s)

def writeUnicodeCharacter (c : Char) : String16 :=
  let n := c.toNat
  if n ≤ 0xffff then [n.toUInt16]
  else [(n >>> 10 + 0xd7c0).toUInt16, (n &&& 0x3ff ||| 0xdc00).toUInt16]

end Utf16

/-! ## The decoders -/

theorem Utf8.length_skipTrail_le (count : Nat) (s : Bytes) :
    (skipTrail count s).length ≤ s.length := by
  induction s generalizing count with
  | nil => cases count <;> simp [skipTrail]
  | cons b s ih =>
    cases count with
    | zero => simp [skipTrail]
    | succ count =>
      rw [skipTrail]
      split
      · exact Nat.le_succ_of_le (ih count)
      · exact le_rfl

def utf8 : Decoder UInt8 Char where
  read := Utf8.readUnicodeCharacter
  read_le c s := by
    simp only [Utf8.readUnicodeCharacter, Utf8.next, Utf8.nextCharSafeBody]
    have hskip := Utf8.length_skipTrail_le (Utf8.countTrailBytes c) s
    have hdrop := List.length_dropWhile_le Utf8.isTrail s
    split_ifs <;> simp [hskip, hdrop]

def utf16 : Decoder UInt16 Char where
  read := Utf16.readUnicodeCharacter
  read_le c s := by
    unfold Utf16.readUnicodeCharacter
    split
    · split
      · split <;> simp
      · simp
    · simp

/-! ## Masks -/

theorem and_highMask {n : Nat} (k m : Nat) (h : n < 2 ^ (k + m)) :
    n &&& ((2 ^ m - 1) <<< k) = n / 2 ^ k * 2 ^ k := by
  rw [← Nat.shiftRight_eq_div_pow, ← Nat.shiftLeft_eq]
  refine Nat.eq_of_testBit_eq fun i => ?_
  simp only [Nat.testBit_and, Nat.testBit_shiftLeft, Nat.testBit_two_pow_sub_one,
    Nat.testBit_shiftRight]
  by_cases hi : k ≤ i
  · rw [Nat.add_sub_cancel' hi]
    by_cases him : i - k < m
    · simp [hi, him]
    · have hbit : n.testBit i = false :=
        Nat.testBit_lt_two_pow (h.trans_le (Nat.pow_le_pow_right (by decide) (by omega)))
      simp [hbit]
  · simp [hi]

theorem isSurrogate_iff {n : Nat} (h : n < 2 ^ 32) :
    isSurrogate n = true ↔ 0xd800 ≤ n ∧ n < 0xe000 := by
  have hmask := and_highMask 11 21 h
  simp only [isSurrogate, beq_iff_eq]
  rw [show 0xfffff800 = (2 ^ 21 - 1) <<< 11 from rfl, hmask]
  omega

theorem isTrail_iff {n : Nat} (h : n < 2 ^ 32) :
    Utf16.isTrail n = true ↔ 0xdc00 ≤ n ∧ n < 0xe000 := by
  have hmask := and_highMask 10 22 h
  simp only [Utf16.isTrail, beq_iff_eq]
  rw [show 0xfffffc00 = (2 ^ 22 - 1) <<< 10 from rfl, hmask]
  omega

/-! ## Reading back -/

theorem codePoint_toNat (c : Char) : codePoint c.toNat = some c := by
  have hvalid : isValidCodepoint c.toNat = true := by
    rcases c.valid with h | h
    · simp only [isValidCodepoint, Bool.or_eq_true, decide_eq_true_eq]
      exact .inl h
    · simp only [isValidCodepoint, Bool.or_eq_true, Bool.and_eq_true, decide_eq_true_eq]
      exact .inr ⟨Nat.succ_le_of_lt h.1, Nat.le_of_lt_succ h.2⟩
  rw [codePoint, if_pos hvalid, Char.ofNat_toNat]

theorem not_isSurrogate (c : Char) : isSurrogate c.toNat = false := by
  have hlt : c.toNat < 2 ^ 32 := c.val.toNat_lt
  rw [Bool.eq_false_iff, Ne, isSurrogate_iff hlt]
  rcases c.valid with h | h
  · have h' : c.toNat < 0xd800 := h
    omega
  · have h' : 0xdfff < c.toNat := h.1
    omega

theorem toNat_le (c : Char) : c.toNat ≤ 0x10ffff := by
  rcases c.valid with h | h
  · have h' : c.toNat < 0xd800 := h
    omega
  · exact Nat.le_of_lt_succ h.2

namespace Utf8

theorem trailByte_spec (n : Nat) :
    isTrail (trailByte n) = true ∧ (trailByte n).toNat &&& 0x3f = n % 64 := by
  have h : ∀ x < 64,
      isTrail (x ||| 0x80).toUInt8 = true ∧ (x ||| 0x80).toUInt8.toNat &&& 0x3f = x := by
    decide
  unfold trailByte
  rw [show 0x3f = 2 ^ 6 - 1 from rfl, Nat.and_two_pow_sub_one_eq_mod n 6]
  exact h _ (Nat.mod_lt n (by decide))

theorem readTrail_trailByte (count c n : Nat) (s : Bytes)
    (h : count = 2 → c * 64 + n % 64 < 0x110) :
    readTrail (count + 1) c (trailByte n :: s) = readTrail count (c * 64 + n % 64) s := by
  obtain ⟨htrail, hbits⟩ := trailByte_spec n
  have hor : c <<< 6 ||| n % 64 = c * 64 + n % 64 := by
    rw [← Nat.shiftLeft_add_eq_or_of_lt (Nat.mod_lt n (by decide)), Nat.shiftLeft_eq]
  rw [readTrail, hbits, hor, if_neg (fun hc => hc.2 (h hc.1)), htrail]
  simp

@[simp] theorem readTrail_zero (c : Nat) (s : Bytes) : readTrail 0 c s = (c, false) := by
  simp [readTrail]

theorem lead_two : ∀ x < 32, 0x80 ≤ (x ||| 0xc0).toUInt8 ∧ isLead (x ||| 0xc0).toUInt8 = true ∧
    countTrailBytes (x ||| 0xc0).toUInt8 = 1 ∧ maskLeadByte (x ||| 0xc0).toUInt8 1 = x := by
  decide

theorem lead_three : ∀ x < 16, 0x80 ≤ (x ||| 0xe0).toUInt8 ∧ isLead (x ||| 0xe0).toUInt8 = true ∧
    countTrailBytes (x ||| 0xe0).toUInt8 = 2 ∧ maskLeadByte (x ||| 0xe0).toUInt8 2 = x := by
  decide

theorem lead_four : ∀ x < 8, 0x80 ≤ (x ||| 0xf0).toUInt8 ∧ isLead (x ||| 0xf0).toUInt8 = true ∧
    countTrailBytes (x ||| 0xf0).toUInt8 = 3 ∧ maskLeadByte (x ||| 0xf0).toUInt8 3 = x := by
  decide

/-- A lead byte with its trail bytes reads as the character they were made of. -/
theorem readUnicodeCharacter_lead {b : UInt8} {count : Nat} {c : Char} {w : Bytes}
    (hb : 0x80 ≤ b ∧ isLead b = true ∧ countTrailBytes b = count)
    (hcount : 0 < count ∧ count < 4) (hlen : w.length = count)
    (hread : ∀ s, readTrail count (maskLeadByte b count) (w ++ s) = (c.toNat, false))
    (hmin : minLegal count ≤ c.toNat) (s : Bytes) :
    readUnicodeCharacter b (w ++ s) = (some c, s) := by
  obtain ⟨hb1, hb2, hb3⟩ := hb
  have hle : count ≤ (w ++ s).length := by simp [hlen]
  have hdrop : (w ++ s).drop count = s := by simp [← hlen]
  simp only [readUnicodeCharacter, next, nextCharSafeBody, if_pos hb1, if_pos hb2, hb3, if_pos hle,
    if_neg (show ¬ count = 0 by omega), if_neg (show ¬ 4 ≤ count by omega), hread,
    not_isSurrogate, hdrop]
  simp [Nat.not_lt.mpr hmin, codePoint_toNat]

end Utf8

theorem utf8_reads : utf8.Reads Utf8.writeUnicodeCharacter := by
  intro c s
  have hmax := toNat_le c
  unfold Utf8.writeUnicodeCharacter
  simp only [Nat.shiftRight_eq_div_pow]
  split_ifs with h1 h2 h3
  · refine ⟨c.toNat.toUInt8, [], rfl, ?_⟩
    have hlt : ¬ 0x80 ≤ c.toNat.toUInt8 := by
      simp [UInt8.le_iff_toNat_le, Nat.mod_eq_of_lt (show c.toNat < 256 by omega)]
      omega
    have hnat : c.toNat.toUInt8.toNat = c.toNat := by
      simp [Nat.mod_eq_of_lt (show c.toNat < 256 by omega)]
    simp only [utf8, Utf8.readUnicodeCharacter, Utf8.next, if_neg hlt, hnat]
    simp [codePoint_toNat]
  · obtain ⟨hb, hlead, hcount, hmask⟩ := Utf8.lead_two (c.toNat / 2 ^ 6) (by omega)
    refine ⟨_, [_], rfl, Utf8.readUnicodeCharacter_lead ⟨hb, hlead, hcount⟩ (by omega) rfl
      (fun s => ?_) (by simp only [Utf8.minLegal]; omega) s⟩
    rw [hmask, List.singleton_append, Utf8.readTrail_trailByte _ _ _ _ (by omega),
      Utf8.readTrail_zero]
    congr 1
    omega
  · obtain ⟨hb, hlead, hcount, hmask⟩ := Utf8.lead_three (c.toNat / 2 ^ 12) (by omega)
    refine ⟨_, [_, _], rfl, Utf8.readUnicodeCharacter_lead ⟨hb, hlead, hcount⟩ (by omega) rfl
      (fun s => ?_) (by simp only [Utf8.minLegal]; omega) s⟩
    simp only [List.cons_append, List.nil_append]
    rw [hmask, Utf8.readTrail_trailByte _ _ _ _ (by omega),
      Utf8.readTrail_trailByte _ _ _ _ (by omega), Utf8.readTrail_zero]
    congr 1
    omega
  · obtain ⟨hb, hlead, hcount, hmask⟩ := Utf8.lead_four (c.toNat / 2 ^ 18) (by omega)
    refine ⟨_, [_, _, _], rfl, Utf8.readUnicodeCharacter_lead ⟨hb, hlead, hcount⟩ (by omega) rfl
      (fun s => ?_) (by simp only [Utf8.minLegal]; omega) s⟩
    simp only [List.cons_append, List.nil_append]
    rw [hmask, Utf8.readTrail_trailByte _ _ _ _ (by omega),
      Utf8.readTrail_trailByte _ _ _ _ (by omega),
      Utf8.readTrail_trailByte _ _ _ _ (by omega), Utf8.readTrail_zero]
    congr 1
    omega

theorem Utf16.getSupplementary_eq (lead trail : Nat) :
    getSupplementary lead trail = lead * 1024 + trail - 56613888 := by
  have hshift : lead <<< 10 = lead * 1024 := Nat.shiftLeft_eq _ _
  have hoffset : 0xd800 <<< 10 + 0xdc00 - 0x10000 = 56613888 := by decide
  unfold getSupplementary
  rw [hshift, hoffset]

theorem utf16_reads : utf16.Reads Utf16.writeUnicodeCharacter := by
  intro c s
  have hmax := toNat_le c
  unfold Utf16.writeUnicodeCharacter
  simp only [Nat.shiftRight_eq_div_pow]
  split_ifs with h
  · have hnat : c.toNat.toUInt16.toNat = c.toNat := by
      simp [Nat.mod_eq_of_lt (show c.toNat < 65536 by omega)]
    refine ⟨_, [], rfl, ?_⟩
    simp [utf16, Utf16.readUnicodeCharacter, hnat, not_isSurrogate, codePoint_toNat]
  · have hor : c.toNat &&& 0x3ff ||| 0xdc00 = c.toNat % 1024 + 0xdc00 := by
      rw [show 0x3ff = 2 ^ 10 - 1 from rfl, Nat.and_two_pow_sub_one_eq_mod, Nat.or_comm,
        Nat.add_comm, show 0xdc00 = 55 <<< 10 from rfl,
        ← Nat.shiftLeft_add_eq_or_of_lt (Nat.mod_lt _ (by decide))]
    have hlead : (c.toNat / 2 ^ 10 + 0xd7c0).toUInt16.toNat = c.toNat / 1024 + 0xd7c0 := by
      simp [Nat.mod_eq_of_lt (show c.toNat / 1024 + 0xd7c0 < 65536 by omega)]
    have htrail : (c.toNat &&& 0x3ff ||| 0xdc00).toUInt16.toNat = c.toNat % 1024 + 0xdc00 := by
      rw [hor]
      simp [Nat.mod_eq_of_lt (show c.toNat % 1024 + 0xdc00 < 65536 by omega)]
    have h1 : isSurrogate (c.toNat / 1024 + 0xd7c0) = true :=
      (isSurrogate_iff (by omega)).mpr (by omega)
    have h2 : Utf16.isSurrogateLead (c.toNat / 1024 + 0xd7c0) = true := by
      have hbit : (c.toNat / 1024 + 0xd7c0).testBit 10 = false := by
        rw [Nat.testBit_eq_decide_div_mod_eq]
        exact decide_eq_false (by omega)
      have hmask := Nat.and_two_pow (c.toNat / 1024 + 0xd7c0) 10
      simp only [hbit, Bool.toNat_false, Nat.zero_mul] at hmask
      exact beq_iff_eq.mpr hmask
    have h3 : Utf16.isTrail (c.toNat % 1024 + 0xdc00) = true :=
      (isTrail_iff (by omega)).mpr (by omega)
    have h4 : Utf16.getSupplementary (c.toNat / 1024 + 0xd7c0) (c.toNat % 1024 + 0xdc00) =
        c.toNat := by
      rw [Utf16.getSupplementary_eq]
      omega
    refine ⟨_, [_], rfl, ?_⟩
    simp only [utf16, Utf16.readUnicodeCharacter, List.singleton_append, hlead, htrail, h1, h2, h3,
      h4, codePoint_toNat]
    rfl

/-! ## Converters -/

section Convert
variable {α β : Type*}

def convertUnicode (d : Decoder α Char) (write : Char → List β) : List α → List β
  | [] => []
  | a :: src =>
    (match (d.read a src).1 with
      | some codePoint => write codePoint
      | none => write '\uFFFD') ++ convertUnicode d write (d.read a src).2
termination_by src => src.length
decreasing_by exact Nat.lt_succ_of_le (d.read_le a src)

theorem convertUnicode_eq (d : Decoder α Char) (write : Char → List β) (src : List α) :
    convertUnicode d write src = (d.decode '\uFFFD' src).flatMap write := by
  fun_induction convertUnicode d write src with
  | case1 => simp [Decoder.decode_nil]
  | case2 a src ih =>
    rw [ih, Decoder.decode_cons, List.flatMap_cons]
    cases (d.read a src).1 <;> rfl

end Convert

/-- `UTF8ToUTF16`, with the fast path for a string that `IsStringASCII`. -/
def utf8ToUtf16 (s : Bytes) : String16 :=
  if s.all (· < 0x80) then s.map UInt8.toUInt16
  else convertUnicode utf8 Utf16.writeUnicodeCharacter s

def utf16ToUtf8 (s : String16) : Bytes :=
  if s.all (· < 0x80) then s.map UInt16.toUInt8
  else convertUnicode utf16 Utf8.writeUnicodeCharacter s

def encodeUtf8 (cs : List Char) : Bytes := cs.flatMap Utf8.writeUnicodeCharacter

/-- The UTF-16 string of some characters; the valid UTF-16 strings are these. -/
def encodeUtf16 (cs : List Char) : String16 := cs.flatMap Utf16.writeUnicodeCharacter

/-- An ASCII unit, of either width, is the character it reads as. -/
theorem codePoint_ascii {n : Nat} (h : n < 0x80) :
    codePoint n = some (Char.ofNat n) ∧ (Char.ofNat n).toNat = n := by
  have hall : ∀ n < 0x80, codePoint n = some (Char.ofNat n) ∧ (Char.ofNat n).toNat = n := by decide
  exact hall n h

theorem utf8ToUtf16_eq (s : Bytes) : utf8ToUtf16 s = encodeUtf16 (utf8.decode '\uFFFD' s) := by
  rw [utf8ToUtf16, convertUnicode_eq]
  split_ifs with hascii
  · induction s with
    | nil => rw [Decoder.decode_nil]; rfl
    | cons b s ih =>
      simp only [List.all_cons, Bool.and_eq_true, decide_eq_true_eq] at hascii
      have hb : b.toNat < 0x80 := hascii.1
      obtain ⟨hcode, hnat⟩ := codePoint_ascii hb
      have hread : utf8.read b s = (some (Char.ofNat b.toNat), s) := by
        simp [utf8, Utf8.readUnicodeCharacter, Utf8.next, UInt8.not_le.mpr hascii.1, hcode]
      have hwrite : Utf16.writeUnicodeCharacter (Char.ofNat b.toNat) = [b.toUInt16] := by
        rw [Utf16.writeUnicodeCharacter, hnat, if_pos (by omega)]
        simp
      rw [Decoder.decode_cons, hread, List.map_cons, ih (by simpa using hascii.2), encodeUtf16,
        encodeUtf16, List.flatMap_cons, Option.getD_some, hwrite]
      rfl
  · rfl

theorem utf16ToUtf8_eq (s : String16) :
    utf16ToUtf8 s = encodeUtf8 (utf16.decode '\uFFFD' s) := by
  rw [utf16ToUtf8, convertUnicode_eq]
  split_ifs with hascii
  · induction s with
    | nil => rw [Decoder.decode_nil]; rfl
    | cons b s ih =>
      simp only [List.all_cons, Bool.and_eq_true, decide_eq_true_eq] at hascii
      have hb : b.toNat < 0x80 := hascii.1
      obtain ⟨hcode, hnat⟩ := codePoint_ascii hb
      have hsurrogate : isSurrogate b.toNat = false := by
        rw [Bool.eq_false_iff, Ne, isSurrogate_iff (by omega)]
        omega
      have hread : utf16.read b s = (some (Char.ofNat b.toNat), s) := by
        simp [utf16, Utf16.readUnicodeCharacter, hsurrogate, hcode]
      have hwrite : Utf8.writeUnicodeCharacter (Char.ofNat b.toNat) = [b.toUInt8] := by
        rw [Utf8.writeUnicodeCharacter, hnat, if_pos (by omega)]
        rfl
      rw [Decoder.decode_cons, hread, List.map_cons, ih (by simpa using hascii.2), encodeUtf8,
        encodeUtf8, List.flatMap_cons, Option.getD_some, hwrite]
      rfl
  · rfl

@[simp] theorem utf8ToUtf16_encode (cs : List Char) :
    utf8ToUtf16 (encodeUtf8 cs) = encodeUtf16 cs := by
  rw [utf8ToUtf16_eq, encodeUtf8, utf8_reads.decode_flatMap]

@[simp] theorem utf16ToUtf8_encode (cs : List Char) :
    utf16ToUtf8 (encodeUtf16 cs) = encodeUtf8 cs := by
  rw [utf16ToUtf8_eq, encodeUtf16, utf16_reads.decode_flatMap]

theorem encodeUtf16_inj {cs cs' : List Char} : encodeUtf16 cs = encodeUtf16 cs' ↔ cs = cs' :=
  utf16_reads.flatMap_inj

/-- Only the empty string converts to the empty string. -/
theorem utf8ToUtf16_eq_nil_iff (s : Bytes) : utf8ToUtf16 s = [] ↔ s = [] := by
  have hnil : encodeUtf16 [] = [] := rfl
  rw [utf8ToUtf16_eq, ← hnil, encodeUtf16_inj]
  cases s with
  | nil => simp [Decoder.decode_nil]
  | cons b s => simp [Decoder.decode_cons]

/-! ## ASCII letters -/

theorem Utf8.high_of_high {c : Char} (h : 0x80 ≤ c.toNat) :
    writeUnicodeCharacter c ≠ [] ∧ ∀ b ∈ writeUnicodeCharacter c, 0x80 ≤ b := by
  have htrail (n : Nat) : 0x80 ≤ trailByte n := by
    have hall : ∀ x < 64, 0x80 ≤ (x ||| 0x80).toUInt8 := by decide
    unfold trailByte
    rw [show 0x3f = 2 ^ 6 - 1 from rfl, Nat.and_two_pow_sub_one_eq_mod n 6]
    exact hall _ (Nat.mod_lt n (by decide))
  have hmax := toNat_le c
  unfold writeUnicodeCharacter
  simp only [Nat.shiftRight_eq_div_pow, if_neg (show ¬ c.toNat ≤ 0x7f by omega)]
  have htail (b : UInt8) (w : Bytes) (hb : 0x80 ≤ b) (hw : ∀ b ∈ w, 0x80 ≤ b) :
      b :: w ≠ [] ∧ ∀ x ∈ b :: w, 0x80 ≤ x :=
    ⟨List.cons_ne_nil b w, List.forall_mem_cons.mpr ⟨hb, hw⟩⟩
  have hone (n : Nat) : ∀ b ∈ [trailByte n], 0x80 ≤ b := List.forall_mem_singleton.mpr (htrail n)
  split_ifs with h2 h3
  · exact htail _ _ (lead_two _ (by omega)).1 (hone _)
  · exact htail _ _ (lead_three _ (by omega)).1 (htail _ _ (htrail _) (hone _)).2
  · exact htail _ _ (lead_four _ (by omega)).1
      (htail _ _ (htrail _) (htail _ _ (htrail _) (hone _)).2).2

theorem Utf16.high_of_high {c : Char} (h : 0x80 ≤ c.toNat) :
    writeUnicodeCharacter c ≠ [] ∧ ∀ b ∈ writeUnicodeCharacter c, 0x80 ≤ b := by
  have hunit {n : Nat} (h1 : 0x80 ≤ n) (h2 : n < 65536) : 0x80 ≤ n.toUInt16 := by
    rw [UInt16.le_iff_toNat_le]
    simpa [Nat.mod_eq_of_lt h2] using h1
  have hmax := toNat_le c
  unfold writeUnicodeCharacter
  simp only [Nat.shiftRight_eq_div_pow]
  split_ifs with h2
  · exact ⟨List.cons_ne_nil _ _, List.forall_mem_singleton.mpr (hunit h (by omega))⟩
  · refine ⟨List.cons_ne_nil _ _, List.forall_mem_cons.mpr ⟨hunit (by omega) (by omega),
      List.forall_mem_singleton.mpr (hunit ?_ ?_)⟩⟩
    · exact le_trans (by decide) Nat.right_le_or
    · have hlow : c.toNat &&& 0x3ff < 2 ^ 16 := lt_of_le_of_lt Nat.and_le_right (by decide)
      exact Nat.or_lt_two_pow hlow (by decide)

/-- A code that writes ASCII as itself, and high units for the rest, has transparent
ASCII letters. -/
theorem ascii_transparent {α : Type*} {enc : Char → List α} {unit : Nat → α} {high : α → Prop}
    (hlow : ∀ c, c.toNat < 0x80 → enc c = [unit c.toNat])
    (hhigh : ∀ c, 0x80 ≤ c.toNat → enc c ≠ [] ∧ ∀ a ∈ enc c, high a) {p : Char → Bool}
    {q : α → Bool} (hpq : ∀ n < 0x80, q (unit n) = p (Char.ofNat n))
    (hp : ∀ c, 0x80 ≤ c.toNat → p c = false) (hq : ∀ a, high a → q a = false) :
    Transparent enc p q := by
  have hunit (c : Char) (h : c.toNat < 0x80) : enc c = [unit c.toNat] ∧ q (unit c.toNat) = p c :=
    ⟨hlow c h, by rw [hpq _ h, Char.ofNat_toNat]⟩
  refine ⟨fun c hc => ?_, fun c hc => ?_, fun c hc => ?_⟩
  · have hlt : c.toNat < 0x80 := by
      by_contra hge
      rw [hp c (by omega)] at hc
      cases hc
    exact ⟨_, (hunit c hlt).1, (hunit c hlt).2.trans hc⟩
  · by_cases hlt : c.toNat < 0x80
    · simp [hlow c hlt]
    · exact (hhigh c (by omega)).1
  · by_cases hlt : c.toNat < 0x80
    · simpa [hlow c hlt, (hunit c hlt).2] using hc
    · exact fun a ha => hq a ((hhigh c (by omega)).2 a ha)

/-- An ASCII letter is written as its unit, and nothing else is. -/
theorem ascii_letter {α : Type*} [BEq α] [LawfulBEq α] {enc : Char → List α} {unit : Nat → α}
    {high : α → Prop} (hlow : ∀ c, c.toNat < 0x80 → enc c = [unit c.toNat])
    (hhigh : ∀ c, 0x80 ≤ c.toNat → enc c ≠ [] ∧ ∀ a ∈ enc c, high a)
    (hunit : ∀ m n, m < 0x80 → n < 0x80 → unit m = unit n → m = n)
    (hnot : ∀ n < 0x80, ¬ high (unit n)) {c : Char} (hc : c.toNat < 0x80) :
    Transparent enc (· == c) (· == unit c.toNat) := by
  refine ascii_transparent hlow hhigh (fun n hn => ?_) (fun d hd => ?_) fun a ha => ?_
  · rw [Bool.eq_iff_iff, beq_iff_eq, beq_iff_eq]
    constructor
    · intro h
      rw [hunit n _ hn hc h, Char.ofNat_toNat]
    · rintro rfl
      rw [(codePoint_ascii hn).2]
  · rw [beq_eq_false_iff_ne]
    rintro rfl
    omega
  · rw [beq_eq_false_iff_ne]
    rintro rfl
    exact hnot _ hc ha

theorem Utf8.writeUnicodeCharacter_low {c : Char} (h : c.toNat < 0x80) :
    writeUnicodeCharacter c = [c.toNat.toUInt8] := by
  rw [writeUnicodeCharacter, if_pos (by omega)]

theorem Utf16.writeUnicodeCharacter_low {c : Char} (h : c.toNat < 0x80) :
    writeUnicodeCharacter c = [c.toNat.toUInt16] := by
  rw [writeUnicodeCharacter, if_pos (by omega)]

theorem utf8_transparent {p : Char → Bool} {q : UInt8 → Bool}
    (hpq : ∀ n < 0x80, q n.toUInt8 = p (Char.ofNat n)) (hp : ∀ c, 0x80 ≤ c.toNat → p c = false)
    (hq : ∀ b, 0x80 ≤ b → q b = false) : Transparent Utf8.writeUnicodeCharacter p q :=
  ascii_transparent (fun _ => Utf8.writeUnicodeCharacter_low) (fun _ => Utf8.high_of_high) hpq hp hq

theorem utf8_letter {c : Char} (hc : c.toNat < 0x80) :
    Transparent Utf8.writeUnicodeCharacter (· == c) (· == c.toNat.toUInt8) := by
  refine ascii_letter (fun _ => Utf8.writeUnicodeCharacter_low) (fun _ => Utf8.high_of_high)
    (fun m n hm hn h => ?_) (fun n hn h => ?_) hc
  · have hnat := congrArg UInt8.toNat h
    simp only [Nat.toUInt8_eq, UInt8.toNat_ofNat'] at hnat
    omega
  · rw [UInt8.le_iff_toNat_le, Nat.toUInt8_eq, UInt8.toNat_ofNat'] at h
    change 128 ≤ n % 2 ^ 8 at h
    omega

theorem utf16_letter {c : Char} (hc : c.toNat < 0x80) :
    Transparent Utf16.writeUnicodeCharacter (· == c) (· == c.toNat.toUInt16) := by
  refine ascii_letter (fun _ => Utf16.writeUnicodeCharacter_low) (fun _ => Utf16.high_of_high)
    (fun m n hm hn h => ?_) (fun n hn h => ?_) hc
  · have hnat := congrArg UInt16.toNat h
    simp only [Nat.toUInt16_eq, UInt16.toNat_ofNat'] at hnat
    omega
  · rw [UInt16.le_iff_toNat_le, Nat.toUInt16_eq, UInt16.toNat_ofNat'] at h
    change 128 ≤ n % 2 ^ 16 at h
    omega

end Mdgate.Base
