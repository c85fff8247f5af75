import CheckedLisp.Proofs.Check.Agreement
import CheckedLisp.Proofs.Check.Resolution
import CheckedLisp.Proofs.Eval.Resolution

/-! A program that checks may still come upon an undefined name, since a conditional or a loop
shares the frame around it: the checker goes through all its branches, control through some. This is
the only way. A name that a checked program finds undefined is bound by a conditional or a loop that
control can pass without binding it. -/
namespace CheckedLisp

theorem Machine.resolved_start (x : String) (limit : Nat) (capacity : Option Nat) :
    (start limit capacity).heap.Resolved x := by
  refine ⟨wellScoped_start limit capacity, ?_⟩
  intro t frame found binding member
  cases t with
  | succ t => cases found
  | zero =>
    cases found
    rcases List.mem_append.1 member with constant | function
    · rcases List.mem_pair.1 constant with rfl | rfl
      · trivial
      · trivial
    · obtain ⟨_, _, rfl⟩ := List.mem_map.1 function
      trivial

namespace Check

theorem sees_start_iff (x : String) (limit : Nat) (capacity : Option Nat) :
    (Machine.start limit capacity).heap.Sees Machine.globalScope x ↔ (Machine.globals.lookup x).isSome = true := by
  have found : (Machine.start limit capacity).heap.frame? Machine.globalScope =
      some ⟨none, none, Machine.globals⟩ := rfl
  rw [Heap.sees_root found rfl, Frame.mem_names_iff]
  rfl

/-- Checks and runs start with the same names. -/
theorem global_of_sees {x : String} (seen : Checker.start.heap.Sees TypeHeap.globalScope x) :
    (Machine.globals.lookup x).isSome = true := by
  rw [Heap.sees_iff_lookup, Heap.lookup_eq_view, view_start] at seen
  have both := frameAgrees_globals x
  cases held : Machine.globals.lookup x with
  | some value => rfl
  | none =>
    rw [held] at both
    cases typed : globalTypes.lookup x with
    | none => simp [typed] at seen
    | some ty =>
      rw [typed] at both
      cases both

theorem fault_of_undefined {fault : Eval.Fault} (undefined : fault.code = .undefinedName) :
    ∃ x, fault = .undefinedName x ∨ fault = .undefinedTarget x := by
  cases fault with
  | undefinedName x => exact ⟨x, .inl rfl⟩
  | undefinedTarget x => exact ⟨x, .inr rfl⟩
  | builtin function fault => cases fault <;> cases undefined
  | _ => cases undefined

/-- Where a program without quoted code checks and then fails for an undefined name, some
conditional or loop of it binds that name in the frame around it and does not settle it. -/
theorem unsettled_of_undefined {src : Source} {forms : List Node} {tys : List Ty} {errors : Diagnostics}
    {report : Report} (parsed : src.parse = .ok forms) (unquoted : Node.areUnquoted forms = true)
    (checked : src.check = .ok tys) (failed : src.run.1 = .error errors) (kept : report ∈ errors.kept)
    (undefined : report.code = .undefinedName) :
    ∃ x, (report.message = (Eval.Fault.undefinedName x).message ∨
        report.message = (Eval.Fault.undefinedTarget x).message) ∧
      Machine.globals.lookup x = none ∧ Node.anyUnsettles x forms false = true := by
  simp only [Source.run, parsed] at failed
  split at failed
  · cases failed
  next failure m run =>
  cases failed
  obtain rfl := List.mem_singleton.1 kept
  obtain ⟨x, isFault⟩ := fault_of_undefined undefined
  refine ⟨x, ?_, ?_⟩
  · rcases isFault with same | same
    · exact .inl (congrArg Eval.Fault.message same)
    · exact .inr (congrArg Eval.Fault.message same)
  have unresolved : ∀ bound, (bound = true → (Machine.globals.lookup x).isSome = true) →
      Node.resolvesAll x forms bound ≠ true := by
    intro bound global resolves
    have ready : Resolution.Ready x Machine.globalScope bound (Machine.start Machine.defaultLimit none).heap :=
      ⟨Machine.resolved_start x _ _, Nat.zero_lt_one, fun isBound => (sees_start_iff x _ _).2 (global isBound)⟩
    have avoids := Resolution.avoids_of_evalAll ready resolves run
    rcases isFault with same | same
    · exact avoids.1 same
    · exact avoids.2 same
  cases global : Machine.globals.lookup x with
  | some value =>
    exact absurd (Node.resolvesAll_bound forms unquoted) (unresolved true fun _ => by rw [global]; rfl)
  | none =>
    refine ⟨rfl, ?_⟩
    by_contra settled
    obtain ⟨c, typed⟩ := nodes_of_check parsed checked
    have live : TypeHeap.globalScope < Checker.start.heap.next := by decide
    have unseen : Checker.start.heap.Sees TypeHeap.globalScope x → false = true := by
      intro seen
      have isGlobal := global_of_sees seen
      rw [global] at isGlobal
      exact isGlobal
    have resolves := nodes_resolve forms TypeHeap.sound_start live unquoted
      (Bool.not_eq_true _ ▸ settled) unseen typed
    exact unresolved false (by simp) resolves

example : ((⟨"both", "(if #t (define x 1) (define x 2)) x"⟩ : Source).parse.toOption.map
    (Node.anyUnsettles "x" · false)) = some false := by decide +kernel

/-- A definition that the checker passes and control does not. -/
def passing : Source := ⟨"passing", "(if #f (define x 1) ()) x"⟩

theorem passing_undefined :
    ∃ forms tys errors report, passing.parse = .ok forms ∧ Node.areUnquoted forms = true ∧
      passing.check = .ok tys ∧ passing.run.1 = .error errors ∧ report ∈ errors.kept ∧
      report.code = .undefinedName := by
  have parses : passing.parse.toOption.map Node.areUnquoted = some true := by decide +kernel
  have checks : passing.check.toOption.isSome = true := by decide +kernel
  have fails : (match passing.run.1 with
      | .ok _ => []
      | .error errors => errors.kept.map (·.code)) = [.undefinedName] := by decide +kernel
  cases parsed : passing.parse with
  | error errors =>
    rw [parsed] at parses
    cases parses
  | ok forms =>
  cases checked : passing.check with
  | error errors =>
    rw [checked] at checks
    cases checks
  | ok tys =>
  cases ran : passing.run.1 with
  | ok values =>
    rw [ran] at fails
    cases fails
  | error errors =>
    rw [parsed] at parses
    rw [ran] at fails
    have codes : errors.kept.map (·.code) = [.undefinedName] := fails
    have coded : Code.undefinedName ∈ errors.kept.map (·.code) := codes ▸ List.mem_singleton_self _
    obtain ⟨report, kept, undefined⟩ := List.mem_map.1 coded
    exact ⟨forms, tys, errors, report, rfl, Option.some.inj parses, rfl, rfl, kept, undefined⟩

theorem unsettled_of_undefined_passing :
    ∃ forms errors report, passing.parse = .ok forms ∧ passing.run.1 = .error errors ∧
      report ∈ errors.kept ∧
      ∃ x, (report.message = (Eval.Fault.undefinedName x).message ∨
          report.message = (Eval.Fault.undefinedTarget x).message) ∧
        Machine.globals.lookup x = none ∧ Node.anyUnsettles x forms false = true := by
  obtain ⟨forms, tys, errors, report, parsed, unquoted, checked, failed, kept, undefined⟩ := passing_undefined
  exact ⟨forms, errors, report, parsed, failed, kept,
    unsettled_of_undefined parsed unquoted checked failed kept undefined⟩

/-- That a program checks does not mean that all its names are defined when it runs. -/
theorem undefined_despite_check :
    ¬ ∀ (src : Source) (forms : List Node) (tys : List Ty) (errors : Diagnostics), src.parse = .ok forms →
      Node.areUnquoted forms = true → src.check = .ok tys → src.run.1 = .error errors →
      ∀ report ∈ errors.kept, report.code ≠ .undefinedName := by
  intro claimed
  obtain ⟨forms, tys, errors, report, parsed, unquoted, checked, failed, kept, undefined⟩ := passing_undefined
  exact claimed passing forms tys errors parsed unquoted checked failed report kept undefined

end Check

end CheckedLisp
