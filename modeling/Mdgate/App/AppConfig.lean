import Mdgate.App.IniGrammar
import Mdgate.Base.Values

/-!
# `DictionaryValueINIParser` and `GetAppConfig`

The parser stores each triplet at the path `section.key` of a dictionary. A
lookup at such a path returns the value of the last triplet that has this section
and this key.
-/

namespace Mdgate.App

open Mdgate.Base

namespace DictionaryValueINIParser

def handleTriplet (t : Triplet) (root : DictionaryValue) : DictionaryValue :=
  if find (ch '.') t.section = none ∧ find (ch '.') t.key = none then
    DictionaryValue.setString root (t.section ++ [ch '.'] ++ t.key) t.value
  else root

def root (content : Bytes) : DictionaryValue := INIParser.parse handleTriplet content []

end DictionaryValueINIParser

/-- `GetAppConfig`, on the content that was read from `chrome.ini`. -/
def getAppConfig (iniContent key : Bytes) (defaultVal : String16) : String16 :=
  let val := (DictionaryValue.getString16 (DictionaryValueINIParser.root iniContent) key).getD []
  if val.isEmpty then defaultVal else val

/-! ## Lookups -/

/-- Neither the section nor the key has a `.`. -/
def Triplet.Dotless (t : Triplet) : Prop := ch '.' ∉ t.section ∧ ch '.' ∉ t.key

instance (t : Triplet) : Decidable t.Dotless := inferInstanceAs (Decidable (_ ∧ _))

/-- The value of the last triplet with a section and a key. -/
def lastValue (sec key : Bytes) (ts : List Triplet) : Option Bytes :=
  (ts.filter fun t => t.section = sec ∧ t.key = key).getLast?.map (·.value)

theorem lastValue_concat (sec key : Bytes) (ts : List Triplet) (t : Triplet) :
    lastValue sec key (ts ++ [t]) =
      if t.section = sec ∧ t.key = key then some t.value else lastValue sec key ts := by
  unfold lastValue
  rw [List.filter_append]
  by_cases h : t.section = sec ∧ t.key = key
  · simp [h]
  · rw [List.filter_singleton, if_neg h]
    simp [h]

theorem lastValue_isSome_iff (sec key : Bytes) (ts : List Triplet) :
    (lastValue sec key ts).isSome = true ↔ ∃ t ∈ ts, t.section = sec ∧ t.key = key := by
  rw [lastValue, Option.isSome_map, List.getLast?_isSome, Ne, List.filter_eq_nil_iff]
  simp

namespace DictionaryValueINIParser

theorem handleTriplet_of_dotless {t : Triplet} (h : t.Dotless) (root : DictionaryValue) :
    handleTriplet t root =
      DictionaryValue.set root (t.section ++ ch '.' :: t.key) (.string t.value) := by
  rw [handleTriplet, if_pos ⟨find_eq_none.mpr h.1, find_eq_none.mpr h.2⟩,
    DictionaryValue.setString]
  simp

theorem handleTriplet_of_not_dotless {t : Triplet} (h : ¬ t.Dotless) (root : DictionaryValue) :
    handleTriplet t root = root := by
  rw [handleTriplet, if_neg]
  exact fun hf => h ⟨find_eq_none.mp hf.1, find_eq_none.mp hf.2⟩

/-- One more triplet changes the lookup only if it has the section and the key. -/
theorem get_handleTriplet {sec key : Bytes} (hsec : ch '.' ∉ sec) (hkey : ch '.' ∉ key)
    (t : Triplet) (root : DictionaryValue) :
    DictionaryValue.get (handleTriplet t root) (sec ++ ch '.' :: key) =
      if t.section = sec ∧ t.key = key then some (.string t.value)
      else DictionaryValue.get root (sec ++ ch '.' :: key) := by
  by_cases h : t.Dotless
  · rw [handleTriplet_of_dotless h, DictionaryValue.get_set h.1 h.2 hsec hkey]
    simp only [eq_comm]
  · rw [handleTriplet_of_not_dotless h, if_neg]
    rintro ⟨rfl, rfl⟩
    exact h ⟨hsec, hkey⟩

def store (ts : List Triplet) : DictionaryValue := ts.foldl (fun root t => handleTriplet t root) []

theorem root_eq_store (content : Bytes) : root content = store (INIParser.triplets content) :=
  INIParser.parse_eq_foldl handleTriplet content []

theorem get_store {sec key : Bytes} (hsec : ch '.' ∉ sec) (hkey : ch '.' ∉ key)
    (ts : List Triplet) : DictionaryValue.get (store ts) (sec ++ ch '.' :: key) =
      (lastValue sec key ts).map .string := by
  induction ts using List.reverseRecOn with
  | nil => simp [store, DictionaryValue.get_path hsec, DictionaryValue.getDictionary,
      DictionaryValue.get_key hsec, DictionaryValue.getWithoutPathExpansion, lastValue]
  | append_singleton ts t ih =>
    rw [store, List.foldl_append, lastValue_concat]
    apply (get_handleTriplet hsec hkey t (store ts)).trans
    split_ifs
    · rfl
    · exact ih

/-- Triplets with a `.` in the section or the key leave nothing behind. -/
theorem store_filter_dotless (ts : List Triplet) :
    store (ts.filter fun t => t.Dotless) = store ts := by
  induction ts using List.reverseRecOn with
  | nil => rfl
  | append_singleton ts t ih =>
    have hstep : store (ts ++ [t]) = handleTriplet t (store ts) := by simp [store]
    rw [hstep, List.filter_append]
    by_cases h : t.Dotless
    · rw [List.filter_singleton, decide_eq_true h, ← ih]
      simp [store]
    · rw [List.filter_singleton, decide_eq_false h, handleTriplet_of_not_dotless h, ← ih]
      simp

theorem getString_root {sec key : Bytes} (hsec : ch '.' ∉ sec) (hkey : ch '.' ∉ key)
    (content : Bytes) :
    DictionaryValue.getString (root content) (sec ++ ch '.' :: key) =
        lastValue sec key (INIParser.triplets content) ∧
      DictionaryValue.getString16 (root content) (sec ++ ch '.' :: key) =
        (lastValue sec key (INIParser.triplets content)).map utf8ToUtf16 := by
  rw [DictionaryValue.getString, DictionaryValue.getString16, root_eq_store, get_store hsec hkey]
  cases lastValue sec key (INIParser.triplets content) <;> exact ⟨rfl, rfl⟩

end DictionaryValueINIParser

open DictionaryValueINIParser in
theorem getAppConfig_eq {sec key : Bytes} (hsec : ch '.' ∉ sec) (hkey : ch '.' ∉ key)
    (content : Bytes) (defaultVal : String16) :
    getAppConfig content (sec ++ ch '.' :: key) defaultVal =
      match lastValue sec key (INIParser.triplets content) with
      | none => defaultVal
      | some v => if v.isEmpty then defaultVal else utf8ToUtf16 v := by
  rw [getAppConfig, (getString_root hsec hkey content).2]
  cases lastValue sec key (INIParser.triplets content) with
  | none => rfl
  | some v =>
    have hempty : (utf8ToUtf16 v).isEmpty = v.isEmpty := by
      rw [Bool.eq_iff_iff, List.isEmpty_iff, List.isEmpty_iff, utf8ToUtf16_eq_nil_iff]
    simp only [Option.map_some, Option.getD_some, hempty]

open DictionaryValueINIParser in
/-- A lookup succeeds just when the content has the section and the key, and then
returns the last value; no lookup sees a triplet with a `.`; `GetAppConfig` returns
the last value unless it is missing or empty. -/
theorem config_lookup {sec key : Bytes} (hsec : ch '.' ∉ sec) (hkey : ch '.' ∉ key)
    (content : Bytes) :
    ((DictionaryValue.getString (root content) (sec ++ ch '.' :: key)).isSome = true ↔
        ∃ t ∈ INIParser.triplets content, t.section = sec ∧ t.key = key) ∧
      DictionaryValue.getString (root content) (sec ++ ch '.' :: key) =
        lastValue sec key (INIParser.triplets content) ∧
      DictionaryValue.getString16 (root content) (sec ++ ch '.' :: key) =
        (lastValue sec key (INIParser.triplets content)).map utf8ToUtf16 ∧
      (∀ path, DictionaryValue.get (root content) path =
        DictionaryValue.get (store ((INIParser.triplets content).filter fun t => t.Dotless)) path) ∧
      ∀ defaultVal, getAppConfig content (sec ++ ch '.' :: key) defaultVal =
        match lastValue sec key (INIParser.triplets content) with
        | none => defaultVal
        | some v => if v.isEmpty then defaultVal else utf8ToUtf16 v := by
  obtain ⟨h8, h16⟩ := getString_root hsec hkey content
  refine ⟨?_, h8, h16, fun path => ?_, getAppConfig_eq hsec hkey content⟩
  · rw [h8, lastValue_isSome_iff]
  · rw [store_filter_dotless, root_eq_store]

open DictionaryValueINIParser in
/-- In `[a]` the key `k` is set twice, and `b.k` is no section. -/
theorem config_lookup_twice :
    DictionaryValue.getString (root ("[a]\nk=v\n[b.k]\nk=x\n[a]\nk=w".toList.map ch))
        ([ch 'a'] ++ ch '.' :: [ch 'k']) = some [ch 'w'] := by
  rw [(config_lookup (by decide) (by decide) _).2.1]
  decide

end Mdgate.App
