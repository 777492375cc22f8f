import Mdgate.Base.Utf

/-!
# `DictionaryValue`

The nested dictionary of `values.cc`, with strings at its leaves. A path is cut
at each `.`: all but the last part lead through child dictionaries.
-/

namespace Mdgate.Base

open Mdgate.Lib

inductive Value where
  | string (value : Bytes)
  | dictionary (entries : List (Bytes × Value))

abbrev DictionaryValue := List (Bytes × Value)

namespace DictionaryValue

def getWithoutPathExpansion (d : DictionaryValue) (key : Bytes) : Option Value := d.lookup key

def setWithoutPathExpansion : DictionaryValue → Bytes → Value → DictionaryValue
  | [], key, inValue => [(key, inValue)]
  | (k, old) :: d, key, inValue =>
    if k = key then (k, inValue) :: d else (k, old) :: setWithoutPathExpansion d key inValue

theorem delimiter_lt {path : Bytes} {pos : Nat} (h : find (ch '.') path = some pos) :
    pos < path.length :=
  findFirst_lt h

mutual

def get (d : DictionaryValue) (path : Bytes) : Option Value :=
  match _h : find (ch '.') path with
  | none => getWithoutPathExpansion d path
  | some delimiterPosition =>
    match getDictionary d (path.take delimiterPosition) with
    | none => none
    | some childDictionary => get childDictionary (path.drop (delimiterPosition + 1))
termination_by (path.length, 0)
decreasing_by
  all_goals
    have hlt := delimiter_lt _h
    simp only [Prod.lex_def, List.length_take, List.length_drop]
    omega

def getDictionary (d : DictionaryValue) (path : Bytes) : Option DictionaryValue :=
  match get d path with
  | some (.dictionary child) => some child
  | _ => none
termination_by (path.length, 1)

end

def set (d : DictionaryValue) (path : Bytes) (inValue : Value) : DictionaryValue :=
  match h : find (ch '.') path with
  | none => setWithoutPathExpansion d path inValue
  | some delimiterPosition =>
    let key := path.take delimiterPosition
    let childDictionary := (getDictionary d key).getD []
    setWithoutPathExpansion d key
      (.dictionary (set childDictionary (path.drop (delimiterPosition + 1)) inValue))
termination_by path.length
decreasing_by
  have hlt := delimiter_lt h
  simp only [List.length_drop]
  omega

def setString (d : DictionaryValue) (path inValue : Bytes) : DictionaryValue :=
  set d path (.string inValue)

/-- `GetString` to a `std::string`; `none` is a failure. -/
def getString (d : DictionaryValue) (path : Bytes) : Option Bytes :=
  match get d path with
  | some (.string value) => some value
  | _ => none

/-- `GetString` to a `string16`. -/
def getString16 (d : DictionaryValue) (path : Bytes) : Option String16 :=
  match get d path with
  | some (.string value) => some (utf8ToUtf16 value)
  | _ => none

/-! ## Paths -/

theorem getWithoutPathExpansion_set (d : DictionaryValue) (key key' : Bytes) (v : Value) :
    getWithoutPathExpansion (setWithoutPathExpansion d key v) key' =
      if key' = key then some v else getWithoutPathExpansion d key' := by
  unfold getWithoutPathExpansion
  induction d with
  | nil =>
    by_cases h : key' = key
    · simp [setWithoutPathExpansion, h]
    · simp [setWithoutPathExpansion, h, List.lookup_cons, beq_false_of_ne h]
  | cons e d ih =>
    obtain ⟨k, old⟩ := e
    simp only [setWithoutPathExpansion]
    by_cases hk : k = key
    · by_cases h : key' = key
      · simp [hk, h]
      · simp [hk, h, List.lookup_cons, beq_false_of_ne h]
    · rw [if_neg hk, List.lookup_cons, List.lookup_cons, ih]
      by_cases h : key' = k
      · simp [h, hk]
      · simp [beq_false_of_ne h]

theorem get_key {key : Bytes} (h : ch '.' ∉ key) (d : DictionaryValue) :
    get d key = getWithoutPathExpansion d key := by
  rw [get]
  split
  · rfl
  · next pos hpos => rw [find_eq_none.mpr h] at hpos; cases hpos

theorem get_path {key : Bytes} (h : ch '.' ∉ key) (d : DictionaryValue) (path : Bytes) :
    get d (key ++ ch '.' :: path) = (getDictionary d key).bind (get · path) := by
  rw [get]
  split
  · next hnone => rw [find_append h] at hnone; cases hnone
  · next pos hpos =>
    rw [find_append h] at hpos
    obtain rfl := Option.some.inj hpos
    have hdrop : (key ++ ch '.' :: path).drop (key.length + 1) = path := by simp
    rw [List.take_left, hdrop]
    cases getDictionary d key <;> rfl

theorem set_key {key : Bytes} (h : ch '.' ∉ key) (d : DictionaryValue) (v : Value) :
    set d key v = setWithoutPathExpansion d key v := by
  rw [set]
  split
  · rfl
  · next pos hpos => rw [find_eq_none.mpr h] at hpos; cases hpos

theorem set_path {key : Bytes} (h : ch '.' ∉ key) (d : DictionaryValue) (path : Bytes)
    (v : Value) : set d (key ++ ch '.' :: path) v =
      setWithoutPathExpansion d key (.dictionary (set ((getDictionary d key).getD []) path v)) := by
  rw [set]
  split
  · next hnone => rw [find_append h] at hnone; cases hnone
  · next pos hpos =>
    rw [find_append h] at hpos
    obtain rfl := Option.some.inj hpos
    have hdrop : (key ++ ch '.' :: path).drop (key.length + 1) = path := by simp
    simp only [List.take_left, hdrop]

theorem getDictionary_set {key key' : Bytes} (h : ch '.' ∉ key') (d : DictionaryValue)
    (child : DictionaryValue) :
    getDictionary (setWithoutPathExpansion d key (.dictionary child)) key' =
      if key' = key then some child else getDictionary d key' := by
  rw [getDictionary, getDictionary, get_key h, get_key h, getWithoutPathExpansion_set]
  split_ifs <;> rfl

/-- What is read at `section.key` is what was last set there, whatever is set
elsewhere. -/
theorem get_set {sec key sec' key' : Bytes} (hsec : ch '.' ∉ sec) (hkey : ch '.' ∉ key)
    (hsec' : ch '.' ∉ sec') (hkey' : ch '.' ∉ key') (d : DictionaryValue) (v : Value) :
    get (set d (sec ++ ch '.' :: key) v) (sec' ++ ch '.' :: key') =
      if sec' = sec ∧ key' = key then some v else get d (sec' ++ ch '.' :: key') := by
  rw [set_path hsec, get_path hsec', get_path hsec', getDictionary_set hsec']
  by_cases hs : sec' = sec
  · subst hs
    simp only [if_true, Option.bind_some, true_and, set_key hkey, get_key hkey',
      getWithoutPathExpansion_set]
    split_ifs
    · rfl
    · -- a missing section is an empty one
      cases getDictionary d sec' <;> simp [getWithoutPathExpansion]
  · simp [hs]

end DictionaryValue

end Mdgate.Base
