import Mathlib.Data.List.Basic

/-!
# `BrowserThread::ID`

The well-known threads in the order of their lifetimes: each outlives those
after it. All but `UI` are started by `CreateThreads`.
-/

namespace Mdgate.Content

inductive ID where
  | ui | db | file | fileUserBlocking | processLauncher | cache | io
  deriving DecidableEq, Repr

namespace ID

def index : ID → Nat
  | ui => 0
  | db => 1
  | file => 2
  | fileUserBlocking => 3
  | processLauncher => 4
  | cache => 5
  | io => 6

def all : List ID := [ui, db, file, fileUserBlocking, processLauncher, cache, io]

def subThreads : List ID := all.tail

theorem index_injective {a b : ID} (h : a.index = b.index) : a = b := by
  cases a <;> cases b <;> first | rfl | cases h

theorem mem_all (a : ID) : a ∈ all := by cases a <;> decide

end ID

end Mdgate.Content
