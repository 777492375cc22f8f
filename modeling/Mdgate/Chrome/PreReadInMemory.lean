import Mathlib.Data.Nat.Init
import Mdgate.Chrome.PreReadSection

/-!
# Touching the pages of a mapped image

`PartialPreReadImageInMemory` reads one byte in each page of the first part of
each section. `TouchPagesInRange` steps from the start of the range by the page
size, wherever in a page that start is, and then reads the last byte.

Addresses are numbers modulo `2 ^ w`, and the loop gets fuel, since it need not
end where a step passes the top of the address space.
-/

namespace Mdgate.Chrome

/-- A module that `LoadLibraryEx` has mapped. -/
structure MappedImage where
  module : Nat
  verifyMagic : Bool
  sections : List ImageSectionHeader

namespace MappedImage

variable (w : Nat) (image : MappedImage)

def rvaToAddr (rva : UInt32) : Nat := if rva = 0 then 0 else (image.module + rva.toNat) % 2 ^ w

/-- `PEImage::GetImageSectionFromAddr`: the index of the section. -/
def getImageSectionFromAddr (address : Nat) : Option Nat :=
  image.sections.findIdx? fun s =>
    let start := image.rvaToAddr w s.virtualAddress
    decide (start ≤ address) && decide ((start + s.virtualSize.toNat) % 2 ^ w > address)

end MappedImage

/-- The loop of `TouchPagesInRange` and the read that follows it. -/
def touchPages (w pageSize finalTouch : Nat) : Nat → Nat → Option (List Nat)
  | 0, _ => none
  | fuel + 1, touch =>
    if touch < finalTouch then
      (touchPages w pageSize finalTouch fuel ((touch + pageSize) % 2 ^ w)).map (touch :: ·)
    else some [finalTouch]

def pageSizeOf (dwPageSize : Nat) : Nat := if dwPageSize = 0 then 4096 else dwPageSize

def touchPagesInRange (w fuel dwPageSize baseAddr length : Nat) : Option (List Nat) :=
  touchPages w (pageSizeOf dwPageSize) ((baseAddr + length - 1) % 2 ^ w) fuel baseAddr

inductive Outcome where
  | checkFailed
  /-- The result, and the addresses that were read for each section, by its index. -/
  | returned (result : Bool) (touched : List (Nat × List Nat))
  deriving DecidableEq, Repr

def Outcome.touch (i : Nat) (addresses : List Nat) : Outcome → Outcome
  | checkFailed => checkFailed
  | returned result touched => returned result ((i, addresses) :: touched)

def touchSections (w fuel dwPageSize percentage : Nat) (image : MappedImage) :
    Nat → List ImageSectionHeader → Option Outcome
  | _, [] => some (.returned true [])
  | i, s :: rest =>
    let length := s.getPercentageOfSectionLength w percentage
    if length = 0 then touchSections w fuel dwPageSize percentage image (i + 1) rest
    else
      let start := image.rvaToAddr w s.virtualAddress
      if image.getImageSectionFromAddr w start = some i ∧
          image.getImageSectionFromAddr w ((start + length - 1) % 2 ^ w) = some i then
        (touchPagesInRange w fuel dwPageSize start length).bind fun addresses =>
          (touchSections w fuel dwPageSize percentage image (i + 1) rest).map (·.touch i addresses)
      else some .checkFailed

/-- `PartialPreReadImageInMemory`, with the module that `LoadLibraryEx` returns. -/
def partialPreReadImageInMemory (w fuel dwPageSize : Nat) (dllModule : Option MappedImage)
    (percentage : Nat) : Option Outcome :=
  if percentage = 0 then some (.returned true [])
  else
    match dllModule with
    | none => some (.returned false [])
    | some image =>
      if image.verifyMagic then
        touchSections w fuel dwPageSize (min percentage 100) image 0 image.sections
      else some .checkFailed

/-! ## Pages -/

theorem pageSizeOf_pos (dwPageSize : Nat) : 0 < pageSizeOf dwPageSize := by
  unfold pageSizeOf
  split <;> omega

variable {w pageSize finalTouch fuel touch : Nat}

/-- Steps of the page size from `a` meet the page of every `x` up to `b`, or `b` is in it. -/
theorem exists_step_in_page {a b x : Nat} (hpage : 0 < pageSize) (ha : a ≤ x) (hb : x ≤ b) :
    (∃ j, a + j * pageSize < b ∧ (a + j * pageSize) / pageSize = x / pageSize) ∨
      b / pageSize = x / pageSize := by
  have hdiv : a / pageSize ≤ x / pageSize := Nat.div_le_div_right ha
  have hstep : (a + (x / pageSize - a / pageSize) * pageSize) / pageSize = x / pageSize := by
    rw [Nat.add_mul_div_right _ _ hpage]
    omega
  by_cases hlt : a + (x / pageSize - a / pageSize) * pageSize < b
  · exact .inl ⟨_, hlt, hstep⟩
  · -- the step has passed `b`, and `x` is before `b`
    have hle := Nat.div_le_div_right (c := pageSize) (Nat.le_of_not_lt hlt)
    have hge : x / pageSize ≤ b / pageSize := Nat.div_le_div_right hb
    rw [hstep] at hle
    exact .inr (Nat.le_antisymm hle hge)

/-- The loop reads every step before the last byte, then that byte. -/
theorem touchPages_spec (hpage : 0 < pageSize) (hroom : finalTouch + pageSize ≤ 2 ^ w)
    (hfuel : finalTouch ≤ touch + fuel) :
    ∃ l, touchPages w pageSize finalTouch (fuel + 1) touch = some l ∧ finalTouch ∈ l ∧
      (∀ a ∈ l, min touch finalTouch ≤ a ∧ a ≤ finalTouch) ∧
      ∀ j, touch + j * pageSize < finalTouch → touch + j * pageSize ∈ l := by
  induction fuel generalizing touch with
  | zero =>
    have hlt : ¬ touch < finalTouch := by omega
    refine ⟨[finalTouch], ?_, List.mem_singleton_self _, fun a ha => ?_, fun j hj => ?_⟩
    · rw [touchPages, if_neg hlt]
    · obtain rfl := List.mem_singleton.mp ha
      omega
    · omega
  | succ fuel ih =>
    by_cases hlt : touch < finalTouch
    · have hmod : (touch + pageSize) % 2 ^ w = touch + pageSize := Nat.mod_eq_of_lt (by omega)
      have hfuel' : finalTouch ≤ touch + pageSize + fuel := by omega
      obtain ⟨l, hl, hfinal, hrange, hsteps⟩ := ih hfuel'
      refine ⟨touch :: l, ?_, List.mem_cons_of_mem _ hfinal, fun a ha => ?_, fun j hj => ?_⟩
      · rw [touchPages, if_pos hlt, hmod, hl]
        rfl
      · rcases List.mem_cons.mp ha with rfl | ha
        · omega
        · have hbounds := hrange a ha
          omega
      · cases j with
        | zero =>
          rw [Nat.zero_mul, Nat.add_zero]
          exact List.mem_cons_self
        | succ j =>
          have hj' : touch + (j + 1) * pageSize = touch + pageSize + j * pageSize := by
            rw [Nat.succ_mul]
            omega
          rw [hj'] at hj ⊢
          exact List.mem_cons_of_mem _ (hsteps j hj)
    · refine ⟨[finalTouch], ?_, List.mem_singleton_self _, fun a ha => ?_, fun j hj => ?_⟩
      · rw [touchPages, if_neg hlt]
      · obtain rfl := List.mem_singleton.mp ha
        omega
      · omega

/-- A range with room for a page above it is touched in every page and nowhere else. -/
theorem touchPagesInRange_spec {dwPageSize base length : Nat} (hpos : 0 < length)
    (hroom : base + length + pageSizeOf dwPageSize ≤ 2 ^ w) (hfuel : length ≤ fuel) :
    ∃ l, touchPagesInRange w (fuel + 1) dwPageSize base length = some l ∧
      (∀ a ∈ l, base ≤ a ∧ a < base + length) ∧
      ∀ x, base ≤ x → x < base + length →
        ∃ a ∈ l, a / pageSizeOf dwPageSize = x / pageSizeOf dwPageSize := by
  have hpage := pageSizeOf_pos dwPageSize
  have hmod : (base + length - 1) % 2 ^ w = base + length - 1 := Nat.mod_eq_of_lt (by omega)
  have hroom' : base + length - 1 + pageSizeOf dwPageSize ≤ 2 ^ w := by omega
  have hfuel' : base + length - 1 ≤ base + fuel := by omega
  obtain ⟨l, hl, hfinal, hrange, hsteps⟩ := touchPages_spec hpage hroom' hfuel'
  refine ⟨l, ?_, fun a ha => ?_, fun x hx hx' => ?_⟩
  · rw [touchPagesInRange, hmod, hl]
  · have hbounds := hrange a ha
    omega
  · rcases exists_step_in_page hpage hx (Nat.le_sub_one_of_lt hx') with ⟨j, hj, hin⟩ | hin
    · exact ⟨_, hsteps j hj, hin⟩
    · exact ⟨_, hfinal, hin⟩

/-! ## Mapped sections -/

namespace ImageSectionHeader

/-- The relative virtual addresses of a section. -/
def Covers (s : ImageSectionHeader) (rva : Nat) : Prop :=
  s.virtualAddress.toNat ≤ rva ∧ rva < s.virtualAddress.toNat + s.virtualSize.toNat

variable {s : ImageSectionHeader} {percentage : Nat}

/-- A percentage of a section, wrapped or not, is inside the section. -/
theorem getPercentageOfSectionLength_le (h : percentage ≤ 100)
    (hpos : s.getPercentageOfSectionLength w percentage ≠ 0) :
    s.getPercentageOfSectionLength w percentage ≤ s.virtualSize.toNat := by
  have hle : s.initializedLength ≤ s.virtualSize.toNat := Nat.min_le_right _ _
  unfold getPercentageOfSectionLength at hpos ⊢
  split at hpos
  · exact absurd rfl hpos
  · rename_i hne
    rw [if_neg hne]
    have hmod := Nat.mod_le (s.initializedLength * percentage) (2 ^ w)
    have hmul : s.initializedLength * percentage ≤ s.initializedLength * 100 :=
      Nat.mul_le_mul_left _ h
    omega

end ImageSectionHeader

/-- What is assumed of an image that is mapped for pages of `pageSize` bytes. -/
structure Mapped (w pageSize : Nat) (image : MappedImage) : Prop where
  verifyMagic : image.verifyMagic = true
  nonzero : ∀ s ∈ image.sections, s.virtualAddress ≠ 0
  disjoint : image.sections.Pairwise fun s t => ∀ rva, ¬ (s.Covers rva ∧ t.Covers rva)
  room : ∀ s ∈ image.sections,
    image.module + s.virtualAddress.toNat + s.virtualSize.toNat + pageSize ≤ 2 ^ w

namespace Mapped

variable {image : MappedImage} {s : ImageSectionHeader} {i : Nat}

theorem rvaToAddr (h : Mapped w pageSize image) (hpage : 0 < pageSize) (hs : s ∈ image.sections) :
    image.rvaToAddr w s.virtualAddress = image.module + s.virtualAddress.toNat := by
  have hroom := h.room s hs
  rw [MappedImage.rvaToAddr, if_neg (h.nonzero s hs), Nat.mod_eq_of_lt (by omega)]

theorem lookup_iff (h : Mapped w pageSize image) (hpage : 0 < pageSize) (hs : s ∈ image.sections)
    {rva : Nat} :
    (decide (image.rvaToAddr w s.virtualAddress ≤ image.module + rva) &&
      decide ((image.rvaToAddr w s.virtualAddress + s.virtualSize.toNat) % 2 ^ w >
        image.module + rva)) = true ↔ s.Covers rva := by
  have hroom := h.room s hs
  have hend : (image.module + s.virtualAddress.toNat + s.virtualSize.toNat) % 2 ^ w =
      image.module + s.virtualAddress.toNat + s.virtualSize.toNat := Nat.mod_eq_of_lt (by omega)
  rw [h.rvaToAddr hpage hs, hend, Bool.and_eq_true, decide_eq_true_eq, decide_eq_true_eq]
  unfold ImageSectionHeader.Covers
  omega

/-- The lookup of an address inside a section finds that section. -/
theorem getImageSectionFromAddr (h : Mapped w pageSize image) (hpage : 0 < pageSize)
    (hi : image.sections[i]? = some s) {rva : Nat} (hrva : s.Covers rva) :
    image.getImageSectionFromAddr w (image.module + rva) = some i := by
  unfold MappedImage.getImageSectionFromAddr
  obtain ⟨hlt, hget⟩ := List.getElem?_eq_some_iff.mp hi
  refine List.findIdx?_eq_some_iff_getElem.mpr ⟨hlt, ?_, fun j hj => ?_⟩
  · rw [hget]
    exact (h.lookup_iff hpage (List.mem_of_getElem? hi)).mpr hrva
  · -- an earlier section that has the address would overlap this one
    intro hfound
    have hdisjoint := List.pairwise_iff_getElem.mp h.disjoint j i (by omega) hlt hj
    rw [hget] at hdisjoint
    exact hdisjoint rva ⟨(h.lookup_iff hpage (List.getElem_mem _)).mp hfound, hrva⟩

end Mapped

/-! ## Every section -/

/-- The addresses that were read for a section are inside the first `n` bytes of it, and
every page that overlaps these bytes has one. -/
structure SectionTouched (w pageSize percentage : Nat) (image : MappedImage)
    (s : ImageSectionHeader) (addresses : List Nat) : Prop where
  nonzero : s.getPercentageOfSectionLength w percentage ≠ 0
  inside : ∀ a ∈ addresses, image.module + s.virtualAddress.toNat ≤ a ∧
    a < image.module + s.virtualAddress.toNat + s.getPercentageOfSectionLength w percentage
  everyPage : ∀ x, image.module + s.virtualAddress.toNat ≤ x →
    x < image.module + s.virtualAddress.toNat + s.getPercentageOfSectionLength w percentage →
    ∃ a ∈ addresses, a / pageSize = x / pageSize

section Sections

variable {image : MappedImage} {s : ImageSectionHeader} {i dwPageSize percentage : Nat}

/-- The step for a section with something to read: the CHECKs hold and its pages are touched. -/
theorem touchSections_cons (h : Mapped w (pageSizeOf dwPageSize) image) (hper : percentage ≤ 100)
    (hi : image.sections[i]? = some s) (rest : List ImageSectionHeader)
    (hpos : s.getPercentageOfSectionLength w percentage ≠ 0) :
    ∃ addresses, SectionTouched w (pageSizeOf dwPageSize) percentage image s addresses ∧
      touchSections w (2 ^ 32 + 1) dwPageSize percentage image i (s :: rest) =
        (touchSections w (2 ^ 32 + 1) dwPageSize percentage image (i + 1) rest).map
          (·.touch i addresses) := by
  have hs : s ∈ image.sections := List.mem_of_getElem? hi
  have hroom := h.room s hs
  have hle := ImageSectionHeader.getPercentageOfSectionLength_le hper hpos
  have hlt : s.virtualSize.toNat < 2 ^ 32 := s.virtualSize.toNat_lt
  have hlast : (image.module + s.virtualAddress.toNat +
      s.getPercentageOfSectionLength w percentage - 1) % 2 ^ w = image.module +
        (s.virtualAddress.toNat + (s.getPercentageOfSectionLength w percentage - 1)) := by
    rw [Nat.mod_eq_of_lt (by omega)]
    omega
  have hfirst := h.getImageSectionFromAddr (pageSizeOf_pos _) hi
    (show s.Covers s.virtualAddress.toNat by unfold ImageSectionHeader.Covers; omega)
  have hend := h.getImageSectionFromAddr (pageSizeOf_pos _) hi
    (show s.Covers (s.virtualAddress.toNat + (s.getPercentageOfSectionLength w percentage - 1)) by
      unfold ImageSectionHeader.Covers; omega)
  obtain ⟨l, hl, hinside, hpages⟩ := touchPagesInRange_spec (w := w)
    (Nat.pos_of_ne_zero hpos) (show image.module + s.virtualAddress.toNat + _ +
      pageSizeOf dwPageSize ≤ 2 ^ w by omega) (show _ ≤ 2 ^ 32 by omega)
  refine ⟨l, ⟨hpos, hinside, hpages⟩, ?_⟩
  simp only [touchSections, h.rvaToAddr (pageSizeOf_pos _) hs]
  rw [if_neg hpos, hlast, if_pos ⟨hfirst, hend⟩, hl]
  rfl

/-- The loop over the sections ends, with no CHECK failed and every section touched. -/
theorem touchSections_spec (h : Mapped w (pageSizeOf dwPageSize) image) (hper : percentage ≤ 100)
    (rest : List ImageSectionHeader) (hrest : image.sections.drop i = rest) :
    ∃ touched, touchSections w (2 ^ 32 + 1) dwPageSize percentage image i rest =
        some (.returned true touched) ∧
      (∀ k addresses, (k, addresses) ∈ touched → ∃ s, image.sections[k]? = some s ∧
        SectionTouched w (pageSizeOf dwPageSize) percentage image s addresses) ∧
      ∀ k s, i ≤ k → image.sections[k]? = some s →
        s.getPercentageOfSectionLength w percentage ≠ 0 →
        ∃ addresses, (k, addresses) ∈ touched := by
  induction rest generalizing i with
  | nil =>
    refine ⟨[], rfl, fun k addresses hmem => (List.not_mem_nil hmem).elim, fun k s hk hs => ?_⟩
    have hlen := List.drop_eq_nil_iff.mp hrest
    rw [List.getElem?_eq_none (by omega)] at hs
    cases hs
  | cons s rest ih =>
    have hi : image.sections[i]? = some s := by
      rw [← List.head?_drop, hrest]
      rfl
    have hdrop : image.sections.drop (i + 1) = rest := by
      rw [← List.tail_drop, hrest]
      rfl
    obtain ⟨touched, htouched, hsound, hall⟩ := ih hdrop
    by_cases hpos : s.getPercentageOfSectionLength w percentage = 0
    · refine ⟨touched, ?_, hsound, fun k t hk ht htpos => ?_⟩
      · rw [← htouched, touchSections, if_pos hpos]
      · have hne : k ≠ i := by
          rintro rfl
          rw [hi] at ht
          obtain rfl := Option.some.inj ht
          exact htpos hpos
        exact hall k t (by omega) ht htpos
    · obtain ⟨l, hl, hstep⟩ := touchSections_cons h hper hi rest hpos
      refine ⟨(i, l) :: touched, ?_, fun k addresses hmem => ?_, fun k t hk ht htpos => ?_⟩
      · rw [hstep, htouched]
        rfl
      · rcases List.mem_cons.mp hmem with heq | hmem
        · obtain ⟨rfl, rfl⟩ := Prod.mk.inj heq
          exact ⟨s, hi, hl⟩
        · exact hsound k addresses hmem
      · by_cases hki : k = i
        · subst hki
          exact ⟨l, List.mem_cons_self⟩
        · obtain ⟨addresses, hmem⟩ := hall k t (by omega) ht htpos
          exact ⟨addresses, List.mem_cons_of_mem _ hmem⟩

/-- Pre-reading a mapped image ends with no CHECK failed, and reads for every section with
something to read bytes of its share only, one in each page of it. -/
theorem pre_read_touches_pages (h : Mapped w (pageSizeOf dwPageSize) image)
    (hpos : 1 ≤ percentage) (hper : percentage ≤ 100) :
    ∃ fuel touched,
      partialPreReadImageInMemory w fuel dwPageSize (some image) percentage =
        some (.returned true touched) ∧
      (∀ i addresses, (i, addresses) ∈ touched → ∃ s, image.sections[i]? = some s ∧
        SectionTouched w (pageSizeOf dwPageSize) percentage image s addresses) ∧
      ∀ (i : Nat) (s : ImageSectionHeader), image.sections[i]? = some s →
        s.getPercentageOfSectionLength w percentage ≠ 0 →
        ∃ addresses, (i, addresses) ∈ touched := by
  obtain ⟨touched, htouched, hsound, hall⟩ :=
    touchSections_spec h hper image.sections (List.drop_zero)
  refine ⟨2 ^ 32 + 1, touched, ?_, hsound, fun i s => hall i s (Nat.zero_le i)⟩
  have hne : percentage ≠ 0 := by omega
  rw [partialPreReadImageInMemory, if_neg hne, Nat.min_eq_left hper]
  simp only [h.verifyMagic, if_true]
  exact htouched

/-- An image with two sections, the first of which does not start at a page. -/
def twoSections : MappedImage where
  module := 0x400000
  verifyMagic := true
  sections := [⟨0x3000, 0x1800, 0x2E00, 0x400⟩, ⟨0x100, 0x5000, 0x200, 0x3200⟩]

theorem twoSections_mapped : Mapped 32 (pageSizeOf 0) twoSections where
  verifyMagic := rfl
  nonzero := by decide
  disjoint := by
    refine .cons (fun t ht rva hrva => ?_) (List.pairwise_singleton _ _)
    obtain rfl := List.mem_singleton.mp ht
    obtain ⟨hfirst, hsecond⟩ := hrva
    have hend : rva < 0x1800 + 0x3000 := hfirst.2
    have hstart : 0x5000 ≤ rva := hsecond.1
    omega
  room := by decide

/-- Half of the first section ends in the page after the one it starts in. -/
theorem pre_read_touches_pages_half :
    twoSections.sections.map (·.getPercentageOfSectionLength 32 50) = [0x1700, 0x80] ∧
      ∃ fuel touched, partialPreReadImageInMemory 32 fuel 0 (some twoSections) 50 =
          some (.returned true touched) ∧
        (∃ addresses, (1, addresses) ∈ touched) ∧
        ∃ addresses a b, (0, addresses) ∈ touched ∧ a ∈ addresses ∧ a / 4096 = 0x401 ∧
          b ∈ addresses ∧ b / 4096 = 0x402 := by
  have hshare : twoSections.sections.map (·.getPercentageOfSectionLength 32 50) =
    [0x1700, 0x80] := by decide
  obtain ⟨fuel, touched, hreturns, hsound, hall⟩ :=
    pre_read_touches_pages twoSections_mapped (show 1 ≤ 50 by decide) (by decide)
  refine ⟨hshare, fuel, touched, hreturns, hall 1 _ rfl (by decide), ?_⟩
  obtain ⟨addresses, hmem⟩ := hall 0 _ rfl (by decide)
  obtain ⟨s, hs, -, -, hpage⟩ := hsound 0 addresses hmem
  obtain rfl := Option.some.inj hs
  obtain ⟨a, ha, hpa⟩ := hpage 0x401800 (by decide) (by decide)
  obtain ⟨b, hb, hpb⟩ := hpage 0x402000 (by decide) (by decide)
  exact ⟨addresses, a, b, hmem, ha, hpa, hb, hpb⟩

end Sections

end Mdgate.Chrome
