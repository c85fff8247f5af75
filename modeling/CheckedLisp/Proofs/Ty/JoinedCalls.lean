import CheckedLisp.Proofs.Check.Preservation
import CheckedLisp.Proofs.Ty.Core

/-! Functions that a join makes into one have the same text, hence the same newest signature, but
the older signatures need not be the same. The join is the last of them. So its calls do not depend
on the order exactly when all of the functions answer every call in the same way. -/
namespace CheckedLisp

/-- Equal types, or faults with the same code. -/
def SameOutcome : Except CallFault Ty → Except CallFault Ty → Prop
  | .ok ty, .ok other => (ty == other) = true
  | .error fault, .error other => fault.code = other.code
  | _, _ => False

namespace Ty

/-- A call of a function type. -/
def called (ty : Ty) (args : List Ty) : Except CallFault Ty := callOverloads ty.signatures args

section

variable {ty a b : Ty} {tys others args params params' : List Ty}

theorem sameTypes_of_perm (reordered : tys.Perm others) : SameTypes tys others := by
  constructor
  · intro ty here
    exact ⟨ty, reordered.mem_iff.1 here, beq_iff.2 rfl⟩
  · intro ty here
    exact ⟨ty, reordered.mem_iff.2 here, beq_iff.2 rfl⟩

theorem exists_perm_last (here : ty ∈ tys) : ∃ before, tys.Perm (before ++ [ty]) := by
  obtain ⟨before, after, rfl⟩ := List.append_of_mem here
  refine ⟨before ++ after, List.perm_middle.trans ?_⟩
  exact (List.perm_append_singleton ty (before ++ after)).symm

/-- The join of functions is the last of them, whatever their order. -/
theorem join_of_perm {rules : Signature Ty → Prop} (normal : ∀ ty ∈ tys, ty.NormalUnder rules)
    (callable : (join tys).isCallable = true) (reordered : tys.Perm others) :
    (join others).isCallable = true ∧ (join tys == join others) = true ∧ others.getLast? = some (join others) := by
  have bares := bare_join (sameTypes_of_perm reordered)
  have callable' : (join others).isCallable = true := by
    rw [← isCallable_bare, ← bares, isCallable_bare, callable]
  have normal' : ∀ ty ∈ others, ty.NormalUnder rules := fun ty here => normal ty (reordered.mem_iff.2 here)
  exact ⟨callable', beq_iff.2 bares, getLast?_eq_join normal' callable'⟩

/-- Each of the functions is the join of all in some order. -/
theorem exists_perm_join {rules : Signature Ty → Prop} (normal : ∀ ty ∈ tys, ty.NormalUnder rules)
    (callable : (join tys).isCallable = true) (here : ty ∈ tys) : ∃ others, tys.Perm others ∧ join others = ty := by
  obtain ⟨before, reordered⟩ := exists_perm_last here
  obtain ⟨-, -, last⟩ := join_of_perm normal callable reordered
  rw [List.getLast?_concat] at last
  exact ⟨before ++ [ty], reordered, (Option.some.inj last).symm⟩

theorem takes_of_bares (same : params.map bare = params'.map bare) (takes : Signature.Takes params args) :
    Signature.Takes params' args := by
  have fits (list : List Ty) := fits_core ⟨list, .unit, .constant .unit⟩ args
  have core (list : List Ty) : coreSignature ⟨list, .unit, .constant .unit⟩ = .declared (list.map bare) .unit := by
    rw [coreSignature, bareAll_eq_map]
    rfl
  have fits' := Signature.fits_iff (s := ⟨params, .unit, .constant .unit⟩).2 takes
  rw [← fits, core, same, ← core, fits] at fits'
  exact Signature.fits_iff.1 fits'

theorem called_of_takes {newest : Signature Ty} {older : List (Signature Ty)}
    (normal : (callable newest older).Declared) (takes : Signature.Takes newest.params args) :
    (callable newest older).called args = .ok newest.ret := by
  have decided : callOverloads ([] ++ newest :: older) args = newest.candidate.invoke args :=
    callOverloads_of_takes (List.forall_mem_nil _) takes
  rw [Signature.invoke_declared (normal.ruled newest List.mem_cons_self)] at decided
  exact decided

/-- Functions with the same text answer alike what their newest signature takes. -/
theorem sameOutcome_of_takes {newest : Signature Ty} {older : List (Signature Ty)}
    (normal : (callable newest older).Declared) (normal' : ty.Declared)
    (same : (callable newest older == ty) = true) (takes : Signature.Takes newest.params args) :
    SameOutcome ((callable newest older).called args) (ty.called args) := by
  have bares := beq_iff.1 same
  cases ty with
  | callable newest' older' =>
    obtain ⟨params, ret, rule⟩ := newest
    obtain ⟨params', ret', rule'⟩ := newest'
    simp only [bare, bareSignature, Signature.declared, callable.injEq, Signature.mk.injEq, bareAll_eq_map] at bares
    have takes' : Signature.Takes params' args := takes_of_bares bares.1.1 takes
    rw [called_of_takes normal takes, called_of_takes normal' takes']
    exact beq_iff.2 bares.1.2.1
  | _ => cases bares

end

/-- Calls of a join that is a function. In every order the types join to a function that is
equal, and it is the last of them. All orders answer every call in the same way exactly when
all of the types do. Functions with declared signatures can differ only in calls that the
newest signature, which they share, does not take. -/
theorem join_called_reordered {tys : List Ty} (normal : ∀ ty ∈ tys, ty.Normal)
    (callable : (join tys).isCallable = true) :
    (∀ others, tys.Perm others → (join others).isCallable = true ∧ (join tys == join others) = true ∧
      others.getLast? = some (join others)) ∧
    ((∀ others, tys.Perm others → ∀ args, SameOutcome ((join tys).called args) ((join others).called args)) ↔
      ∀ ty ∈ tys, ∀ args, SameOutcome ((join tys).called args) (ty.called args)) ∧
    ((∀ ty ∈ tys, ty.Declared) → ∀ others, tys.Perm others → ∀ newest ∈ (join tys).signatures.head?,
      ∀ args, Signature.Takes newest.params args →
        SameOutcome ((join tys).called args) ((join others).called args)) := by
  refine ⟨fun others reordered => join_of_perm normal callable reordered, ?_, ?_⟩
  · constructor
    · intro same ty here args
      obtain ⟨others, reordered, rfl⟩ := exists_perm_join normal callable here
      exact same others reordered args
    · intro same others reordered args
      obtain ⟨-, -, last⟩ := join_of_perm normal callable reordered
      exact same _ (reordered.mem_iff.2 (List.mem_of_getLast? last)) args
  · intro declared others reordered newest isNewest args takes
    obtain ⟨-, same, -⟩ := join_of_perm normal callable reordered
    have declared' : (join others).Declared := normal_join fun ty here => declared ty (reordered.mem_iff.2 here)
    have declaredJoin : (join tys).Declared := normal_join declared
    obtain ⟨first, older, isFunction⟩ := eq_callable callable
    rw [isFunction] at isNewest declaredJoin same ⊢
    cases isNewest
    exact sameOutcome_of_takes declaredJoin declared' same takes

/-- A function for numbers that was one for strings before. -/
def twofold : Ty := .callable (.declared [.int] .int) [.declared [.string] .string]

theorem declared_twofold : ∀ ty ∈ [twofold, .function [.int] .int], ty.Declared := by
  have single : (function [.int] .int).Declared := TypeText.declared_function (by simp [NormalUnder.int]) .int
  have other : (function [.string] .string).Declared :=
    TypeText.declared_function (by simp [NormalUnder.string]) .string
  have both : twofold.Declared := TypeHeap.declared_overload other single
  simp [both, single]

/-- Joined with the plain function for numbers, it is lost or kept by the order. Calls with
numbers do not show it. -/
theorem join_called_reordered_twofold :
    let tys := [twofold, .function [.int] .int]
    (∀ ty ∈ tys, ty.Normal) ∧ (join tys).isCallable = true ∧ (join tys == join tys.reverse) = true ∧
      (¬ ∀ others, tys.Perm others → ∀ args, SameOutcome ((join tys).called args) ((join others).called args)) ∧
      SameOutcome ((join tys).called [.int]) ((join tys.reverse).called [.int]) := by
  intro tys
  have normal : ∀ ty ∈ tys, ty.Normal := fun ty here => (declared_twofold ty here).normal
  have callable : (join tys).isCallable = true := by decide +kernel
  obtain ⟨reordered, alike, accepted⟩ := join_called_reordered normal callable
  have takes : Signature.Takes [.int] [.int] := .fixed (by simp [isVariadic]) (.cons (same_self .int) .nil)
  refine ⟨normal, callable, (reordered _ (List.reverse_perm _).symm).2.1, ?_, ?_⟩
  · intro same
    have impossible := alike.1 same twofold List.mem_cons_self [.string]
    exact impossible
  · exact accepted declared_twofold _ (List.reverse_perm _).symm (.declared [.int] .int) rfl [.int] takes

/-- The order decides whether the joined function still takes strings. -/
theorem order_changes_call :
    (∀ ty ∈ [twofold, .function [.int] .int], ty.Normal) ∧
      [twofold, .function [.int] .int].Perm [.function [.int] .int, twofold] ∧
      (join [twofold, .function [.int] .int]).isCallable = true ∧
      (∃ fault, (join [twofold, .function [.int] .int]).called [.string] = .error fault ∧
        fault.code = .argumentType) ∧
      (join [.function [.int] .int, twofold]).called [.string] = .ok .string := by
  refine ⟨fun ty here => (declared_twofold ty here).normal, List.Perm.swap _ _ _, by decide +kernel, ?_, rfl⟩
  exact ⟨_, rfl, rfl⟩

end Ty

end CheckedLisp
