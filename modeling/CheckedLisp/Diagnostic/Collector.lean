import CheckedLisp.Diagnostic.Report

/-! A collector keeps the first errors that reach it, up to a fixed number, and counts all of them.
-/
namespace CheckedLisp

structure Collector (α : Type) where
  kept : List α
  total : Nat
  deriving DecidableEq, Repr

namespace Collector

variable {α : Type}

def capacity : Nat := 20

def empty : Collector α := ⟨[], 0⟩

def push (c : Collector α) (error : α) : Collector α :=
  ⟨if c.kept.length < capacity then c.kept ++ [error] else c.kept, c.total + 1⟩

/-- Takes over the kept errors of `other` one by one, and the number of those it dropped. -/
def extend (c other : Collector α) : Collector α :=
  let joined := other.kept.foldl push c
  ⟨joined.kept, joined.total + (other.total - other.kept.length)⟩

/-- The collector that the errors of a list have reached, in order. -/
def ofList (errors : List α) : Collector α := ⟨errors.take capacity, errors.length⟩

def isFull (c : Collector α) : Bool := capacity ≤ c.total

def hasErrors (c : Collector α) : Bool := 0 < c.total

@[simp] theorem push_ofList (errors : List α) (error : α) :
    (ofList errors).push error = ofList (errors ++ [error]) := by
  by_cases room : errors.length < capacity
  · simp [ofList, push, room, List.take_of_length_le, Nat.le_of_lt room, Nat.succ_le_of_lt room]
  · have full : min capacity errors.length = capacity := by omega
    simp [ofList, push, full, List.take_append_of_le_length (Nat.le_of_not_lt room)]

theorem foldl_push_ofList (errors more : List α) :
    more.foldl push (ofList errors) = ofList (errors ++ more) := by
  induction more generalizing errors with
  | nil => simp
  | cons error more ih => simp [ih]

@[simp] theorem extend_ofList (errors more : List α) :
    (ofList errors).extend (ofList more) = ofList (errors ++ more) := by
  simp only [extend, foldl_push_ofList]
  simp only [ofList, List.length_append, List.length_take, mk.injEq]
  constructor
  · simp [List.take_append, List.take_take]
  · omega

end Collector

abbrev Diagnostics := Collector Report

end CheckedLisp
