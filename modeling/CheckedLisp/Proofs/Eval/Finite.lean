import CheckedLisp.Proofs.Eval.Course

/-! Literals and arithmetic are the only sources of floats, and both refuse a result that is
undefined or infinite. So no such float is ever bound, passed or given. -/
namespace CheckedLisp

/-- No float in the value, at any depth of pairs, is undefined or infinite. -/
def Value.Finite : Value → Prop
  | float x => x.isNaN = false ∧ x.isInf = false
  | pair car cdr => car.Finite ∧ cdr.Finite
  | _ => True

theorem isNaN_isInf_of_isFinite {x : Float} (finite : x.isFinite = true) :
    x.isNaN = false ∧ x.isInf = false := by
  unfold Float.isFinite Float.Model.isFinite at finite
  unfold Float.isNaN Float.Model.isNaN Float.isInf Float.Model.isInf
  cases unpacked : x.toModel.unpack with
  | zero sign => exact ⟨rfl, rfl⟩
  | finite sign mantissa exponent positive => exact ⟨rfl, rfl⟩
  | infinity sign =>
    rw [unpacked] at finite
    cases finite
  | notANumber =>
    rw [unpacked] at finite
    cases finite

/-- Code holds literals as they were written, so of code nothing is asked. -/
def Eval.finite : Eval.Invariant where
  values := Value.Finite
  code _ := True
  hereditary := {
    unit := trivial
    bool := fun _ => trivial
    int := fun _ => trivial
    float := fun _ => isNaN_isInf_of_isFinite
    string := fun _ => trivial
    pair := fun _ _ => .rfl }
  builtin _ := trivial
  quoted _ := .rfl
  close _ _ _ _ _ _ _ := trivial
  body _ _ := trivial
  child _ _ _ _ := trivial

open Eval

/-- At every moment of a run, and when what is begun there ends, the values in all frames are
finite. So are the arguments of calls, and the values that nodes and calls give or return
early; and so is what the run gives. -/
theorem Source.run_finite (src : Source) :
    (∀ moment ∈ src.moments,
      moment.machine.heap.Holds Value.Finite ∧ moment.ending.machine.heap.Holds Value.Finite ∧
      (∀ scope span function args, moment.task = .apply scope span function args →
        ∀ value ∈ function :: args, value.Finite) ∧
      ∀ value m, moment.ending = .ok value m ∨ moment.ending = .error (.ret value) m → value.Finite) ∧
    ∀ values, src.run.1 = .ok values → ∀ value ∈ values, value.Finite := by
  constructor
  · intro moment met
    have kept := src.kept_of_mem_moments finite (fun _ _ _ _ => trivial) moment met
    refine ⟨kept.before, kept.after, ?_, ?_⟩
    · intro scope span function args isApply
      have task := kept.task
      rw [isApply] at task
      exact List.forall_mem_cons.2 task
    · have given := kept.given
      rintro value m (done | returned)
      · rwa [done] at given
      · rwa [returned] at given
  · intro values done
    exact values_of_run finite (fun _ _ _ _ => trivial) done

/-- A program that divides and pairs floats. -/
def quarters : Source := ⟨"quarters", "(define x (/ 1.0 4.0)) (cons x 2.5)"⟩

theorem Source.run_finite_quarters :
    (quarters.moments.filter (!·.task.isNode)).length = 2 ∧
    (∀ moment ∈ quarters.moments, moment.machine.heap.Holds Value.Finite ∧
      moment.ending.machine.heap.Holds Value.Finite) ∧
    ∃ values, quarters.run.1 = .ok values ∧ values.map Value.kind = ["Unit", "Pair"] ∧
      ∀ value ∈ values, value.Finite := by
  have applied : (quarters.moments.filter (!·.task.isNode)).length = 2 := by decide +kernel
  have kinds : quarters.run.1.toOption.map (·.map Value.kind) = some ["Unit", "Pair"] := by decide +kernel
  obtain ⟨each, given⟩ := quarters.run_finite
  refine ⟨applied, fun moment met => ⟨(each moment met).1, (each moment met).2.1⟩, ?_⟩
  cases ran : quarters.run.1 with
  | error errors =>
    rw [ran] at kinds
    cases kinds
  | ok values =>
    rw [ran] at kinds
    exact ⟨values, rfl, Option.some.inj kinds, given values ran⟩

/-- An infinite quotient is refused. -/
example : (match (⟨"beyond", "(/ 1.0 0.0)"⟩ : Source).run.1 with
    | .ok _ => []
    | .error errors => errors.kept.map (·.code)) = [.builtinFailure] := by decide +kernel

end CheckedLisp
