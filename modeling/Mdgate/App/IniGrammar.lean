import Mathlib.Data.List.Count
import Mdgate.App.IniParser

/-!
# The documented INI format

The format as `ini_parser.h` gives it: lines end at CR or LF; `readLine` says
what a line is; a triplet belongs to the section of the last header before it.
How a section is read off a header is a parameter of `tripletsWith`: the
documented format closes it at the first `]`, `Parse` at the last, which is
the only difference (`triplets_eq`).
-/

namespace Mdgate.App

open Mdgate.Base Mdgate.Lib

/-! ## The format -/

/-- What a line is. -/
inductive Line where
  | blank
  | comment
  /-- A section header, with the text after its `[`. -/
  | header (text : Bytes)
  | pair (key value : Bytes)
  | other
  deriving DecidableEq, Repr

def readLine : Bytes → Line
  | [] => .blank
  | c :: rest =>
    if c = ch '#' ∨ c = ch ';' then .comment
    else if c = ch '[' then .header rest
    else if ch '=' ∈ c :: rest then
      .pair ((c :: rest).takeWhile (· != ch '=')) ((c :: rest).dropWhile (· != ch '=')).tail
    else .other

/-- The triplets of `lines` below the header `hdr`, a section read by `close`. -/
def tripletsWith (close : Bytes → Bytes) (hdr : Option Bytes) : List Bytes → List Triplet
  | [] => []
  | line :: lines =>
    match readLine line with
    | .header text => tripletsWith close (some text) lines
    | .pair key value => ⟨(hdr.map close).getD [], key, value⟩ :: tripletsWith close hdr lines
    | _ => tripletsWith close hdr lines

def lines (content : Bytes) : List Bytes := content.splitOnP fun c => c == ch '\r' || c == ch '\n'

/-- All characters after the first `]` are ignored. -/
def closedSection (text : Bytes) : Bytes := text.takeWhile (· != ch ']')

def documentedTriplets (content : Bytes) : List Triplet :=
  tripletsWith closedSection none (lines content)

/-- The header that governs each triplet of `lines` below the header `hdr`. -/
def governing (hdr : Option Bytes) : List Bytes → List (Option Bytes)
  | [] => []
  | line :: lines =>
    match readLine line with
    | .header text => governing (some text) lines
    | .pair _ _ => hdr :: governing hdr lines
    | _ => governing hdr lines

/-- No header that governs a triplet has a second `]`. -/
def HeadersClosedOnce (content : Bytes) : Prop :=
  ∀ text, some text ∈ governing none (lines content) → text.count (ch ']') ≤ 1

/-- Two ways to read a section agree on the triplets just when they agree on the
headers that govern one. -/
theorem tripletsWith_eq_iff (close close' : Bytes → Bytes) (hdr : Option Bytes)
    (ls : List Bytes) : tripletsWith close hdr ls = tripletsWith close' hdr ls ↔
      ∀ text, some text ∈ governing hdr ls → close text = close' text := by
  induction ls generalizing hdr with
  | nil => simp [tripletsWith, governing]
  | cons line ls ih =>
    simp only [tripletsWith, governing]
    split
    · exact ih _
    · rw [List.cons_eq_cons, ih]
      cases hdr with
      | none => simp
      | some text => simp
    · exact ih _

theorem tripletsWith_filter (close : Bytes → Bytes) (hdr : Option Bytes) (ls : List Bytes) :
    tripletsWith close hdr (ls.filter (!·.isEmpty)) = tripletsWith close hdr ls := by
  induction ls generalizing hdr with
  | nil => rfl
  | cons line ls ih =>
    cases line with
    | nil => simpa [tripletsWith, readLine] using ih hdr
    | cons c cs =>
      simp only [List.filter_cons, List.isEmpty_cons, Bool.not_false, if_true, tripletsWith]
      split <;> simp [ih]

/-! ## The parser -/

namespace INIParser

variable {σ : Type*}

/-- A line means to the parser what it means to the format. -/
theorem parseLine_eq (handleTriplet : Triplet → σ → σ) (sec line : Bytes) (s : σ) :
    parseLine handleTriplet (sec, s) line =
      match readLine line with
      | .header text => (headerSection text, s)
      | .pair key value => (sec, handleTriplet ⟨sec, key, value⟩ s)
      | _ => (sec, s) := by
  cases line with
  | nil => rfl
  | cons c rest =>
    simp only [parseLine, readLine, beq_iff_eq, Bool.or_eq_true]
    by_cases hcomment : c = ch '#' ∨ c = ch ';'
    · simp only [if_pos hcomment]
    · by_cases hheader : c = ch '['
      · simp only [if_neg hcomment, if_pos hheader]
      · simp only [if_neg hcomment, if_neg hheader]
        by_cases hequal : ch '=' ∈ c :: rest
        · obtain ⟨a, b, hs, ha⟩ := List.eq_append_cons_of_mem hequal
          have ha' : ∀ x ∈ a, (x != ch '=') = true :=
            fun x hx => bne_iff_ne.mpr fun h => ha (h ▸ hx)
          rw [if_pos hequal, hs, find_append ha]
          simp [List.takeWhile_append_of_pos ha', List.dropWhile_append_of_pos ha']
        · rw [if_neg hequal, find_eq_none.mpr hequal]

/-- The loop calls the handler once for each triplet of the lines. -/
theorem foldl_parseLine (handleTriplet : Triplet → σ → σ) (hdr : Option Bytes)
    (ls : List Bytes) (s : σ) :
    (ls.foldl (parseLine handleTriplet) ((hdr.map headerSection).getD [], s)).2 =
      (tripletsWith headerSection hdr ls).foldl (fun s t => handleTriplet t s) s := by
  induction ls generalizing hdr s with
  | nil => rfl
  | cons line ls ih =>
    rw [List.foldl_cons, parseLine_eq, tripletsWith]
    split
    · next text _ => exact ih (some text) s
    · next key value _ => exact ih hdr _
    · exact ih hdr s

theorem parse_eq_tripletsWith (handleTriplet : Triplet → σ → σ) (content : Bytes) (s : σ) :
    parse handleTriplet content s =
      (tripletsWith headerSection none (lines content)).foldl (fun s t => handleTriplet t s) s := by
  have hdelims : ([ch '\r', ch '\n'] : Bytes).contains = fun c => c == ch '\r' || c == ch '\n' := by
    funext c
    simp only [List.contains_cons, List.contains_nil, Bool.or_false]
  rw [parse, tokens, getTokens_eq _ (Nat.lt_succ_self _), pieces, hdelims]
  exact (foldl_parseLine handleTriplet none _ s).trans (by rw [tripletsWith_filter]; rfl)

/-- `Parse` reads the documented format, but for where a header closes. -/
theorem triplets_eq (content : Bytes) :
    triplets content = tripletsWith headerSection none (lines content) := by
  have hfold : ∀ ts acc : List Triplet, ts.foldl (fun s t => s ++ [t]) acc = acc ++ ts := by
    intro ts
    induction ts with
    | nil => simp
    | cons t ts ih => intro acc; simp [ih]
  rw [triplets, parse_eq_tripletsWith, hfold, List.nil_append]

/-- A handler sees the triplets of the content in order. -/
theorem parse_eq_foldl (handleTriplet : Triplet → σ → σ) (content : Bytes) (s : σ) :
    parse handleTriplet content s = (triplets content).foldl (fun s t => handleTriplet t s) s := by
  rw [parse_eq_tripletsWith, triplets_eq]

/-- The first and the last `]` of a header differ when it has two. -/
theorem headerSection_eq_iff (text : Bytes) :
    headerSection text = closedSection text ↔ text.count (ch ']') ≤ 1 := by
  unfold closedSection
  by_cases hmem : ch ']' ∈ text
  · obtain ⟨a, b, rfl, ha⟩ := List.eq_append_cons_of_mem hmem
    have ha' : ∀ x ∈ a, (x != ch ']') = true := fun x hx => bne_iff_ne.mpr fun h => ha (h ▸ hx)
    have hclose : (a ++ ch ']' :: b).takeWhile (· != ch ']') = a := by
      simp [List.takeWhile_append_of_pos ha']
    have hcount : (a ++ ch ']' :: b).count (ch ']') = b.count (ch ']') + 1 := by
      simp [List.count_eq_zero_of_not_mem ha]
    rw [hclose, hcount]
    by_cases hb : ch ']' ∈ b
    · obtain ⟨a', c, b', rfl, hc, hb'⟩ :=
        exists_split_last (p := (· == ch ']')) ⟨_, hb, beq_self_eq_true _⟩
      obtain rfl : c = ch ']' := eq_of_beq hc
      have hsec : headerSection (a ++ ch ']' :: (a' ++ ch ']' :: b')) = a ++ ch ']' :: a' := by
        have hsplit : a ++ ch ']' :: (a' ++ ch ']' :: b') =
            (a ++ ch ']' :: a') ++ ch ']' :: b' := by simp
        have hnot : ch ']' ∉ b' := fun h => by simpa using hb' _ h
        simp only [headerSection, hsplit, rfind_append hnot, List.take_left]
      have hpos := List.count_pos_iff.mpr hb
      rw [hsec]
      refine iff_of_false (fun h => ?_) (by omega)
      simpa using congrArg List.length h
    · have hsec : headerSection (a ++ ch ']' :: b) = a := by
        simp [headerSection, rfind_append hb]
      rw [hsec, List.count_eq_zero_of_not_mem hb]
      simp
  · have hsec : headerSection text = text := by
      rw [headerSection, rfind_eq_none.mpr hmem]
    rw [hsec, List.count_eq_zero_of_not_mem hmem, eq_comm, List.takeWhile_eq_self_iff]
    refine iff_of_true (fun x hx => bne_iff_ne.mpr fun h => hmem (h ▸ hx)) (by omega)

/-- `Parse` makes the calls of the documented format just when no header that
governs a triplet has a second `]`. -/
theorem parses_documented_iff (content : Bytes) :
    triplets content = documentedTriplets content ↔ HeadersClosedOnce content := by
  rw [triplets_eq, documentedTriplets, tripletsWith_eq_iff]
  exact forall₂_congr fun text _ => headerSection_eq_iff text

/-- `[a]b]` opens the section `a]b`, where the format has `a`. -/
theorem not_parses_documented :
    ¬ ∀ content, triplets content = documentedTriplets content := by
  intro h
  exact absurd (h ("[a]b]\nk=v".toList.map ch)) (by decide)

end INIParser

end Mdgate.App
