import CheckedLisp.Check.Class
import CheckedLisp.Proofs.Ty.Dispatch

/-! What a successful call of a built-in function says about its arguments and its result. -/
namespace CheckedLisp

/-- The signatures that checking starts with, the newest first. -/
def Builtin.overloads : Builtin → List (Signature Ty)
  | arith _ => [.declared [.float, .float] .float, .declared [.int, .int] .int]
  | compare _ =>
    [.declared [.string, .string] .bool, .declared [.float, .float] .bool,
      .declared [.int, .int] .bool]
  | equal => [.declared [.any, .any] .bool]
  | not => [.declared [.bool] .bool]
  | display => [.declared [.variadic .any] .unit]
  | newline => [.declared [] .unit]
  | cons => [.declared [.any, .any] .any]
  | car | cdr | reverse | eval => [.declared [.any] .any]
  | list | append => [.declared [.variadic .any] .any]
  | length => [.declared [.string] .int, .declared [.any] .int]
  | isNull => [.declared [.any] .bool]

/-- Arguments that fit a signature without a variadic parameter go with its parameters one
by one. -/
theorem Signature.forall₂_of_fits {s : Signature Ty} {args : List Ty}
    (fixed : ∀ param ∈ s.params, param.isVariadic = false) (fits : s.fits args = true) :
    List.Forall₂ (fun param arg => param.same arg = true) s.params args :=
  (takes_plain fixed).1 (fits_iff.1 fits)

/-- A successful call is decided by a signature that the arguments fit. -/
theorem exists_of_callOverloads {signatures : List (Signature Ty)} {args : List Ty} {ty : Ty}
    (called : callOverloads signatures args = .ok ty) :
    ∃ s ∈ signatures, s.fits args = true ∧ s.candidate.invoke args = .ok ty := by
  obtain ⟨c, inside, fits, invoked⟩ := Candidate.exists_of_call called
  obtain ⟨s, member, rfl⟩ := List.mem_map.1 inside
  exact ⟨s, member, fits, invoked⟩

namespace Builtin

theorem rule_of_mem_overloads {b : Builtin} {s : Signature Ty} (inside : s ∈ b.overloads) :
    s.rule = .constant s.ret ∧ s.ret.isData := by
  cases b <;> simp [overloads] at inside
  all_goals rcases inside with rfl | rfl | rfl <;> exact ⟨rfl, rfl⟩

/-- The result of a call of a built-in function is what the signature that decides it
declares. -/
theorem exists_overload {b : Builtin} {args : List Ty} {ty : Ty}
    (called : callOverloads b.overloads args = .ok ty) :
    ∃ s ∈ b.overloads, s.fits args = true ∧ ty = s.ret := by
  obtain ⟨s, inside, fits, invoked⟩ := exists_of_callOverloads called
  rw [Signature.invoke_declared (rule_of_mem_overloads inside).1] at invoked
  exact ⟨s, inside, fits, (Except.ok.inj invoked).symm⟩

end Builtin

end CheckedLisp
