import Mathlib.Data.List.TakeDrop
import Mathlib.Data.List.TakeWhile
import Mdgate.Lib.Codec
import Mdgate.Lib.Search

/-!
# Trimming, splitting and tokenizing

The string helpers that the crash reporter and the INI parser rest on, over a
`std::basic_string` as the list of its characters.
-/

namespace Mdgate.Base

open Mdgate.Lib

abbrev Bytes := List UInt8

abbrev String16 := List UInt16

def ch (c : Char) : UInt8 := c.toUInt8

variable {α : Type*}

section Find
variable [BEq α]

def find (c : α) (s : List α) : Option Nat := findFirst (· == c) s

def rfind (c : α) (s : List α) : Option Nat := findLast (· == c) s

variable [LawfulBEq α]

theorem find_eq_none {c : α} {s : List α} : find c s = none ↔ c ∉ s := by
  simp only [find, findFirst_eq_none, beq_eq_false_iff_ne]
  exact ⟨fun h hc => h c hc rfl, fun h x hx hxc => h (hxc ▸ hx)⟩

theorem find_append {c : α} {a : List α} (ha : c ∉ a) (b : List α) :
    find c (a ++ c :: b) = some a.length := by
  refine findFirst_append (beq_self_eq_true c) fun x hx => ?_
  exact beq_eq_false_iff_ne.mpr fun h => ha (h ▸ hx)

theorem rfind_eq_none {c : α} {s : List α} : rfind c s = none ↔ c ∉ s := by
  simp only [rfind, findLast_eq_none, beq_eq_false_iff_ne]
  exact ⟨fun h hc => h c hc rfl, fun h x hx hxc => h (hxc ▸ hx)⟩

theorem rfind_append {c : α} {b : List α} (hb : c ∉ b) (a : List α) :
    rfind c (a ++ c :: b) = some a.length := by
  refine findLast_append (beq_self_eq_true c) fun x hx => ?_
  exact beq_eq_false_iff_ne.mpr fun h => hb (h ▸ hx)

end Find

/-! ## `TrimWhitespace` -/

/-- `TrimStringT` with `TRIM_ALL`, `p` saying which characters are trimmed. -/
def trimString (p : α → Bool) (input : List α) : List α :=
  match findFirst (!p ·) input, findLast (!p ·) input with
  | some firstGoodChar, some lastGoodChar =>
    (input.drop firstGoodChar).take (lastGoodChar - firstGoodChar + 1)
  | _, _ => []

def Trimmed (p : α → Bool) (s : List α) : Prop :=
  (∀ c ∈ s.head?, p c = false) ∧ ∀ c ∈ s.getLast?, p c = false

instance (p : α → Bool) (s : List α) : Decidable (Trimmed p s) :=
  inferInstanceAs (Decidable (_ ∧ _))

theorem trimString_eq (p : α → Bool) (s : List α) :
    trimString p s = (s.dropWhile p).rdropWhile p := by
  by_cases h : ∃ c ∈ s, (!p c) = true
  · obtain ⟨a, c, b, hs, hc, ha⟩ := exists_split_first h
    obtain ⟨u, c', v, hcb, hc', hv⟩ :=
      exists_split_last (p := (!p ·)) (s := c :: b) ⟨c, List.mem_cons_self, hc⟩
    have ha' : ∀ x ∈ a, p x = true := by simpa using ha
    have hv' : ∀ x ∈ v.reverse, p x = true := by simpa using hv
    have hlast : findLast (!p ·) s = some (a ++ u).length := by
      rw [hs, hcb, ← List.append_assoc]
      exact findLast_append hc' hv
    have hfirst : findFirst (!p ·) s = some a.length := hs ▸ findFirst_append hc ha
    have hdrop : s.dropWhile p = u ++ c' :: v := by
      rw [hs, List.dropWhile_append_of_pos ha', List.dropWhile_cons_of_neg (by simpa using hc), hcb]
    have htrim : trimString p s = (u ++ c' :: v).take (u.length + 1) := by
      unfold trimString
      rw [hfirst, hlast, hs, hcb]
      simp
    rw [htrim, hdrop, List.rdropWhile, List.reverse_append, List.reverse_cons, List.append_assoc,
      List.dropWhile_append_of_pos hv', List.singleton_append,
      List.dropWhile_cons_of_neg (by simpa using hc'), List.take_length_add_append]
    simp
  · have hall : ∀ c ∈ s, p c = true := by simpa using h
    have htrim : trimString p s = [] := by
      unfold trimString
      rw [findFirst_eq_none.mpr (by simpa using hall)]
    rw [htrim, List.dropWhile_eq_nil_iff.mpr hall, List.rdropWhile_nil]

theorem length_trimString_le (p : α → Bool) (s : List α) : (trimString p s).length ≤ s.length := by
  rw [trimString_eq]
  exact (List.rdropWhile_prefix p _).length_le.trans (List.length_dropWhile_le p s)

theorem trimString_eq_self_iff {p : α → Bool} {s : List α} :
    trimString p s = s ↔ Trimmed p s := by
  rw [trimString_eq]
  cases s with
  | nil => simp [Trimmed]
  | cons c s =>
    constructor
    · intro h
      have hc : p c = false := by
        by_contra hc
        rw [List.dropWhile_cons_of_pos (by simpa using hc)] at h
        have hlen := congrArg List.length h
        rw [← trimString_eq, List.length_cons] at hlen
        exact absurd (length_trimString_le p s) (by omega)
      rw [List.dropWhile_cons_of_neg (by simp [hc])] at h
      have hlast := List.rdropWhile_eq_self_iff.mp h (List.cons_ne_nil c s)
      refine ⟨by simpa using hc, fun x hx => ?_⟩
      rw [List.getLast?_eq_some_getLast (List.cons_ne_nil c s), Option.mem_some_iff] at hx
      simpa [hx] using hlast
    · rintro ⟨hhead, hlast⟩
      rw [List.dropWhile_cons_of_neg (by simp [hhead c rfl]), List.rdropWhile_eq_self_iff]
      intro hne
      simp [hlast _ (List.getLast?_eq_some_getLast hne)]

/-- Letters that are trimmed one unit each may be trimmed from the units. -/
theorem trimString_flatMap {γ : Type*} {enc : γ → List α} {p : γ → Bool} {q : α → Bool}
    (h : Transparent enc p q) (cs : List γ) :
    trimString q (cs.flatMap enc) = (trimString p cs).flatMap enc := by
  rw [trimString_eq, trimString_eq, h.dropWhile, h.rdropWhile]

/-! ## `SplitString` -/

section Split
variable [BEq α]

/-- The loop of `SplitStringT`: `tmp` is the piece so far, `r` the vector. -/
def splitLoop (s : α) (trim : List α → List α) (tmp : List α) (r : List (List α)) :
    List α → List (List α)
  | [] => if !r.isEmpty || !(trim tmp).isEmpty then r ++ [trim tmp] else r
  | c :: cs =>
    if c == s then splitLoop s trim [] (r ++ [trim tmp]) cs
    else splitLoop s trim (tmp ++ [c]) r cs

/-- `SplitStringT` with `trim_whitespace`. -/
def splitString (s : α) (trim : List α → List α) (str : List α) : List (List α) :=
  splitLoop s trim [] [] str

theorem splitLoop_eq (s : α) (trim : List α → List α) (tmp str : List α) {r : List (List α)}
    (hr : r ≠ []) :
    splitLoop s trim tmp r str = r ++ ((str.splitOn s).modifyHead (tmp ++ ·)).map trim := by
  induction str generalizing tmp r with
  | nil => simp [splitLoop, hr]
  | cons c cs ih =>
    rw [splitLoop, List.splitOn_cons_eq_if_modifyHead]
    split
    · rw [ih _ (by simp)]
      simp [show (fun x : List α => x) = id from rfl]
    · rw [ih _ hr, List.modifyHead_modifyHead]
      congr 2
      simp [Function.comp_def]

theorem splitLoop_append {s : α} {a b : List α} (hs : (s == s) = true)
    (ha : ∀ x ∈ a, (x == s) = false) (trim : List α → List α) (tmp : List α)
    (r : List (List α)) :
    splitLoop s trim tmp r (a ++ s :: b) = splitLoop s trim [] (r ++ [trim (tmp ++ a)]) b := by
  induction a generalizing tmp with
  | nil => simp [splitLoop, hs]
  | cons x a ih =>
    obtain ⟨hx, ha⟩ := List.forall_mem_cons.mp ha
    rw [List.cons_append, splitLoop, hx]
    simpa using ih ha (tmp ++ [x])

/-- A string with a separator is cut at each of them and its pieces trimmed. -/
theorem splitString_eq [LawfulBEq α] {s : α} {str : List α} (h : s ∈ str)
    (trim : List α → List α) : splitString s trim str = (str.splitOn s).map trim := by
  obtain ⟨a, c, b, rfl, hc, ha⟩ := exists_split_first (p := (· == s)) ⟨s, h, beq_self_eq_true s⟩
  obtain rfl : c = s := eq_of_beq hc
  have hna : c ∉ a := fun hmem => by simpa using ha c hmem
  rw [splitString, splitLoop_append hc ha, splitLoop_eq _ _ _ _ (by simp),
    List.splitOn_append_cons_self_of_not_mem hna]
  simp [show (fun x : List α => x) = id from rfl]

theorem splitLoop_of_not_mem {s : α} {str : List α} (h : ∀ c ∈ str, (c == s) = false)
    (trim : List α → List α) (tmp : List α) :
    splitLoop s trim tmp [] str =
      if (trim (tmp ++ str)).isEmpty then [] else [trim (tmp ++ str)] := by
  induction str generalizing tmp with
  | nil => cases htrim : (trim tmp).isEmpty <;> simp [splitLoop, htrim]
  | cons c cs ih =>
    obtain ⟨hc, hcs⟩ := List.forall_mem_cons.mp h
    rw [splitLoop, hc]
    simpa using ih hcs (tmp ++ [c])

/-- A string without a separator is one piece, or none. -/
theorem splitString_of_not_mem [LawfulBEq α] {s : α} {str : List α} (h : s ∉ str)
    (trim : List α → List α) :
    splitString s trim str = if (trim str).isEmpty then [] else [trim str] :=
  splitLoop_of_not_mem (fun _ hc => beq_eq_false_iff_ne.mpr fun heq => h (heq.subst hc)) trim []

theorem length_splitOn (s : α) (str : List α) :
    (str.splitOn s).length = str.countP (· == s) + 1 := by
  induction str with
  | nil => rfl
  | cons c cs ih =>
    rw [List.splitOn_cons_eq_if_modifyHead]
    by_cases hc : (c == s) = true
    · simp [hc, ih]
    · simp [hc, ih]

theorem splitString_flatMap [LawfulBEq α] {γ : Type*} [BEq γ] [LawfulBEq γ] {enc : γ → List α}
    {c : γ} {s : α} {p : γ → Bool} {q : α → Bool} (hsep : Transparent enc (· == c) (· == s))
    (htrim : Transparent enc p q) (cs : List γ) :
    splitString s (trimString q) (cs.flatMap enc) =
      (splitString c (trimString p) cs).map (List.flatMap enc) := by
  have hmem : s ∈ cs.flatMap enc ↔ c ∈ cs := by simpa using hsep.exists_mem cs
  by_cases hc : c ∈ cs
  · rw [splitString_eq (hmem.mpr hc), splitString_eq hc, List.map_map]
    have hsplit : (cs.flatMap enc).splitOn s = (cs.splitOn c).map (List.flatMap enc) :=
      hsep.splitOnP cs
    rw [hsplit, List.map_map]
    exact List.map_congr_left fun piece _ => trimString_flatMap htrim piece
  · rw [splitString_of_not_mem (mt hmem.mp hc), splitString_of_not_mem hc,
      trimString_flatMap htrim]
    cases hpiece : trimString p cs with
    | nil => rfl
    | cons x xs =>
      have hne : enc x ≠ [] := by
        by_cases hx : p x = true
        · obtain ⟨a, ha, -⟩ := htrim.single x hx
          simp [ha]
        · exact htrim.ne_nil x (by simpa using hx)
      have hne' : ((x :: xs).flatMap enc).isEmpty = false := by simp [hne]
      rw [hne']
      rfl

end Split

/-! ## `StringTokenizer` -/

section Tokenizer
variable [BEq α]

/-- `QuickGetNext` on the rest of the string: the token and what follows it. -/
def quickGetNext (delims : List α) : List α → Option (List α × List α)
  | [] => none
  | c :: cs =>
    if delims.contains c then quickGetNext delims cs
    else
      let r := cs.span (!delims.contains ·)
      some (c :: r.1, r.2)

def getTokens (delims : List α) : Nat → List α → List (List α)
  | 0, _ => []
  | fuel + 1, s =>
    match quickGetNext delims s with
    | none => []
    | some (token, rest) => token :: getTokens delims fuel rest

def tokens (delims s : List α) : List (List α) := getTokens delims (s.length + 1) s

def pieces (delims s : List α) : List (List α) :=
  (s.splitOnP delims.contains).filter (!·.isEmpty)

theorem pieces_cons_delim {delims : List α} {d : α} (h : delims.contains d = true)
    (s : List α) : pieces delims (d :: s) = pieces delims s := by
  simp only [pieces, List.splitOnP_cons_eq_if_modifyHead, h, if_true]
  simp

theorem quickGetNext_cases (delims s : List α) :
    (quickGetNext delims s = none ∧ pieces delims s = []) ∨
      ∃ token rest, quickGetNext delims s = some (token, rest) ∧ rest.length < s.length ∧
        pieces delims s = token :: pieces delims rest := by
  induction s with
  | nil => exact .inl ⟨rfl, rfl⟩
  | cons c cs ih =>
    by_cases hc : delims.contains c = true
    · rw [quickGetNext, if_pos hc, pieces_cons_delim hc]
      apply ih.imp id
      rintro ⟨token, rest, h1, h2, h3⟩
      exact ⟨token, rest, h1, Nat.lt_succ_of_lt h2, h3⟩
    · refine .inr ⟨c :: cs.takeWhile (!delims.contains ·), cs.dropWhile (!delims.contains ·),
        ?_, ?_, ?_⟩
      · rw [quickGetNext, if_neg hc, List.span_eq_takeWhile_dropWhile]
      · exact Nat.lt_succ_of_le (List.length_dropWhile_le ..)
      · -- the token ends at the next delimiter, or with the string
        have hc : delims.contains c = false := by simpa using hc
        by_cases hd : ∃ d ∈ cs, delims.contains d = true
        · obtain ⟨a, d, b, rfl, hd, ha⟩ := exists_split_first hd
          have ha' : ∀ x ∈ a, (!delims.contains x) = true := by simpa using ha
          rw [List.takeWhile_append_of_pos ha', List.dropWhile_append_of_pos ha']
          have h1 := List.splitOnP_append_cons_of_forall_mem
            (List.forall_mem_cons.mpr ⟨hc, ha⟩) d hd b
          simp only [List.cons_append] at h1
          simp only [List.takeWhile_cons, List.dropWhile_cons, hd, Bool.not_true,
            Bool.false_eq_true, if_false, List.append_nil, pieces_cons_delim hd]
          simp [pieces, h1]
        · have hall : ∀ x ∈ cs, delims.contains x = false := by simpa using hd
          have hall' : ∀ x ∈ cs, (!delims.contains x) = true := by simpa using hd
          have h1 := List.splitOnP_eq_singleton (List.forall_mem_cons.mpr ⟨hc, hall⟩)
          rw [List.takeWhile_eq_self_iff.mpr hall', List.dropWhile_eq_nil_iff.mpr hall']
          simp [pieces, h1]

/-- The tokenizer returns the non-empty pieces between delimiters. -/
theorem getTokens_eq (delims : List α) {fuel : Nat} {s : List α} (h : s.length < fuel) :
    getTokens delims fuel s = pieces delims s := by
  induction fuel generalizing s with
  | zero => omega
  | succ fuel ih =>
    rcases quickGetNext_cases delims s with ⟨h1, h2⟩ | ⟨token, rest, h1, hlt, h2⟩
    · rw [getTokens, h1, h2]
    · rw [getTokens, h1, h2]
      simp only
      rw [ih (by omega)]

end Tokenizer

end Mdgate.Base
