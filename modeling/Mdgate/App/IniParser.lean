import Mdgate.Base.Strings

/-!
# `INIParser`

`Parse` over the bytes of the content, for any `HandleTriplet` on a state `σ`.
-/

namespace Mdgate.App

open Mdgate.Base

structure Triplet where
  «section» : Bytes
  key : Bytes
  value : Bytes
  deriving DecidableEq, Repr

namespace INIParser

variable {σ : Type*}

/-- The section of a header line, from the text after its `[`. -/
def headerSection (text : Bytes) : Bytes :=
  match rfind (ch ']') text with
  | some e => text.take e
  | none => text

/-- One round of `Parse`'s loop; the state is `current_section` and `σ`. -/
def parseLine (handleTriplet : Triplet → σ → σ) (st : Bytes × σ) (line : Bytes) : Bytes × σ :=
  match line with
  | [] => st
  | c :: rest =>
    if c == ch '#' || c == ch ';' then st
    else if c == ch '[' then (headerSection rest, st.2)
    else
      match find (ch '=') line with
      | some equal =>
        (st.1, handleTriplet ⟨st.1, line.take equal, line.drop (equal + 1)⟩ st.2)
      | none => st

def parse (handleTriplet : Triplet → σ → σ) (content : Bytes) (s : σ) : σ :=
  ((tokens [ch '\r', ch '\n'] content).foldl (parseLine handleTriplet) ([], s)).2

def triplets (content : Bytes) : List Triplet := parse (fun t ts => ts ++ [t]) content []

end INIParser

end Mdgate.App
