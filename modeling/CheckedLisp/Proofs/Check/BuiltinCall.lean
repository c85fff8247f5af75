import CheckedLisp.Proofs.Check.Overloads
import CheckedLisp.Proofs.Eval.BuiltinResult

/-! When checking accepts a call of a built-in function with definite argument types, the call gives
a value of the checked type, or it refuses for a reason that types do not show: a list that is not
proper, or a result that cannot be represented. -/
namespace CheckedLisp

theorem Ty.eq_of_same {param arg : Ty} (ground : param.isGround) (definite : arg.isAny = false)
    (same : param.same arg = true) : arg = param := by
  cases param <;> cases ground <;> cases arg <;> cases definite <;>
    first
      | rfl
      | simp [Ty.same, Ty.isAny, BEq.beq, Ty.equal] at same

/-- Definite arguments of ground parameters have exactly the types of the parameters. -/
theorem Signature.eq_of_fits {params args : List Ty} {ret : Ty} (ground : ∀ p ∈ params, p.isGround)
    (definite : ∀ arg ∈ args, arg.isAny = false)
    (fits : (Signature.declared params ret).fits args = true) : args = params := by
  have fixed : ∀ p ∈ params, p.isVariadic = false := by
    intro p inside
    have := ground p inside
    cases p <;> simp_all [Ty.isGround, Ty.isVariadic]
  have each := forall₂_of_fits (s := .declared params ret) fixed fits
  change List.Forall₂ _ params args at each
  clear fits fixed
  induction each with
  | nil => rfl
  | cons same _ ih =>
    rw [List.forall_mem_cons] at ground definite
    rw [Ty.eq_of_same ground.1 definite.1 same, ih ground.2 definite.2]

theorem Value.eq_of_inhabits_int {v : Value} (inhabits : v.Inhabits .int) : ∃ n, v = .int n := by
  cases inhabits
  exact ⟨_, rfl⟩

theorem Value.eq_of_inhabits_float {v : Value} (inhabits : v.Inhabits .float) : ∃ x, v = .float x := by
  cases inhabits
  exact ⟨_, rfl⟩

theorem Value.eq_of_inhabits_string {v : Value} (inhabits : v.Inhabits .string) :
    ∃ s, v = .string s := by
  cases inhabits
  exact ⟨_, rfl⟩

theorem Value.eq_of_inhabits_bool {v : Value} (inhabits : v.Inhabits .bool) : ∃ b, v = .bool b := by
  cases inhabits
  exact ⟨_, rfl⟩

/-- Definite data is never code. -/
theorem Value.not_quoted_of_inhabits {v : Value} {ty : Ty} (data : ty.isData)
    (definite : ty.isAny = false) (inhabits : v.Inhabits ty) (n : Node) : v ≠ .quoted n := by
  rintro rfl
  obtain ⟨member, inside, holds⟩ := Ty.exists_member data definite inhabits
  have ground := Ty.isGround_of_mem_members data definite inside
  cases holds <;> cases ground

namespace Builtin

open Sequencing

/-- Refusals that no type excludes. -/
def Fault.isTolerated (fault : Fault) : Prop :=
  fault.code = .improperList ∨ fault.code = .builtinFailure

/-- An outcome of type `ty`, or a tolerated refusal. -/
def Gives (ty : Ty) : Outcome → Prop
  | .ok v => v.Inhabits ty
  | .error fault => fault.isTolerated

/-- The result of a call from `m`: the frames stay as they are, and quoted code does not run. -/
def Answers (ty : Ty) (m : Machine) : EStateM.Result Exit Machine Value → Prop
  | .ok v m' => v.Inhabits ty ∧ m'.heap = m.heap ∧ m'.cancelled = m.cancelled
  | .error (.fault fault) _ => fault.isTolerated
  | .error (.nested _) _ => False

theorem answers_give {ty : Ty} {m : Machine} {outcome : Outcome} (gives : Gives ty outcome) :
    Answers ty m (give outcome m) := by
  cases outcome with
  | ok v => exact ⟨gives, rfl, rfl⟩
  | error fault => exact gives

theorem answers_write (m : Machine) (pieces : List String) : Answers .unit m (write pieces m) := by
  rw [write_apply]
  split
  · exact ⟨.unit, rfl, rfl⟩
  · exact .inr rfl

theorem gives_calculate_int (op : Arith) (a b : Int64) : Gives .int (calculate op (.int a) (.int b)) := by
  simp only [calculate]
  cases word? (op.onInt a.toInt b.toInt) with
  | some n => exact Value.Inhabits.int n
  | none => exact .inr rfl

theorem gives_calculate_float (op : Arith) (a b : Float) :
    Gives .float (calculate op (.float a) (.float b)) := by
  simp only [calculate]
  split
  · exact Value.Inhabits.float _
  · exact .inr rfl

theorem gives_order_float (op : Comparison) (a b : Float) :
    Gives .bool (order op (.float a) (.float b)) := by
  simp only [order]
  cases orderFloats? a b with
  | some o => exact Value.Inhabits.bool _
  | none => exact .inr rfl

theorem gives_items {ty : Ty} {v : Value} {next : List Value → Outcome}
    (rest : ∀ items, Gives ty (next items)) : Gives ty (items v >>= next) := by
  unfold items
  cases v.toList? with
  | some found => exact rest found
  | none => exact .inl rfl

theorem gives_count (n : Nat) : Gives .int (count n) := by
  unfold count
  split
  · exact Value.Inhabits.int _
  · exact .inr rfl

/-- Whatever has a length, it is an integer. -/
theorem gives_size (v : Value) : Gives .int (size v) := by
  cases v with
  | pair head tail => exact gives_items fun found => gives_count found.length
  | unit => exact gives_count 0
  | string s => exact gives_count s.length
  | _ => exact .inr rfl

theorem gives_concat (args : List Value) : Gives .any ((concat args).map .ofList) := by
  induction args with
  | nil => exact Value.Inhabits.any _
  | cons v vs ih =>
    unfold concat items
    cases v.toList? with
    | none => exact .inl rfl
    | some first =>
      revert ih
      cases concat vs with
      | ok items => exact fun _ => Value.Inhabits.any _
      | error fault => exact id

theorem length_of_fits {s : Signature Ty} {tys : List Ty} {values : List Value}
    (fixed : ∀ p ∈ s.params, p.isVariadic = false) (fits : s.fits tys = true)
    (args : List.Forall₂ Value.Inhabits values tys) : values.length = s.params.length := by
  rw [args.length_eq, ← (Signature.forall₂_of_fits fixed fits).length_eq]

theorem exists_one {values : List Value} {t : Ty} (args : List.Forall₂ Value.Inhabits values [t]) :
    ∃ v, values = [v] ∧ v.Inhabits t := by
  cases args with
  | cons here rest =>
    cases rest
    exact ⟨_, rfl, here⟩

theorem exists_two {values : List Value} {t u : Ty}
    (args : List.Forall₂ Value.Inhabits values [t, u]) :
    ∃ v w, values = [v, w] ∧ v.Inhabits t ∧ w.Inhabits u := by
  cases args with
  | cons left rest =>
    obtain ⟨w, rfl, right⟩ := exists_one rest
    exact ⟨_, w, rfl, left, right⟩

theorem answers_onOne {ty : Ty} {m : Machine} {f : Value → Outcome} {values : List Value}
    (count : values.length = 1) (gives : ∀ v, Gives ty (f v)) :
    Answers ty m (give (onOne f values) m) := by
  obtain ⟨v, rfl⟩ := List.length_eq_one_iff.1 count
  exact answers_give (gives v)

theorem answers_onTwo {ty : Ty} {m : Machine} {f : Value → Value → Outcome} {values : List Value}
    (count : values.length = 2) (gives : ∀ v w, Gives ty (f v w)) :
    Answers ty m (give (onTwo f values) m) := by
  obtain ⟨v, w, rfl⟩ := List.length_eq_two.1 count
  exact answers_give (gives v w)

theorem answers_arith {s : Signature Ty} {op : Arith} (inside : s ∈ (arith op).overloads)
    {values : List Value} (args : List.Forall₂ Value.Inhabits values s.params) (m : Machine) :
    Answers s.ret m ((if zeroDivisor op values then refuse .divisionByZero
      else give (onTwo (calculate op) values)) m) := by
  split
  · exact .inr rfl
  · simp only [overloads, List.mem_cons, List.not_mem_nil, or_false] at inside
    rcases inside with rfl | rfl
    · obtain ⟨v, w, rfl, left, right⟩ := exists_two args
      obtain ⟨a, rfl⟩ := Value.eq_of_inhabits_float left
      obtain ⟨b, rfl⟩ := Value.eq_of_inhabits_float right
      exact answers_give (gives_calculate_float op a b)
    · obtain ⟨v, w, rfl, left, right⟩ := exists_two args
      obtain ⟨a, rfl⟩ := Value.eq_of_inhabits_int left
      obtain ⟨b, rfl⟩ := Value.eq_of_inhabits_int right
      exact answers_give (gives_calculate_int op a b)

theorem answers_compare {s : Signature Ty} {op : Comparison} (inside : s ∈ (compare op).overloads)
    {values : List Value} (args : List.Forall₂ Value.Inhabits values s.params) (m : Machine) :
    Answers s.ret m (give (onTwo (order op) values) m) := by
  simp only [overloads, List.mem_cons, List.not_mem_nil, or_false] at inside
  rcases inside with rfl | rfl | rfl
  · obtain ⟨v, w, rfl, left, right⟩ := exists_two args
    obtain ⟨a, rfl⟩ := Value.eq_of_inhabits_string left
    obtain ⟨b, rfl⟩ := Value.eq_of_inhabits_string right
    exact answers_give (Value.Inhabits.bool _)
  · obtain ⟨v, w, rfl, left, right⟩ := exists_two args
    obtain ⟨a, rfl⟩ := Value.eq_of_inhabits_float left
    obtain ⟨b, rfl⟩ := Value.eq_of_inhabits_float right
    exact answers_give (gives_order_float op a b)
  · obtain ⟨v, w, rfl, left, right⟩ := exists_two args
    obtain ⟨a, rfl⟩ := Value.eq_of_inhabits_int left
    obtain ⟨b, rfl⟩ := Value.eq_of_inhabits_int right
    exact answers_give (Value.Inhabits.bool _)

/-- A call that checking accepts with definite arguments. -/
theorem answers_call {b : Builtin} {tys : List Ty} {ty : Ty} {values : List Value}
    (resolved : callOverloads b.overloads tys = .ok ty) (data : ∀ t ∈ tys, t.isData)
    (definite : ∀ t ∈ tys, t.isAny = false) (args : List.Forall₂ Value.Inhabits values tys)
    (eval : Scope → Node → Run Value) (frame : Scope) (m : Machine) :
    Answers ty m (b.call eval frame values m) := by
  obtain ⟨s, inside, fits, rfl⟩ := exists_overload resolved
  have ground {params : List Ty} {ret : Ty} (same : s = .declared params ret)
      (all : ∀ p ∈ params, p.isGround) : List.Forall₂ Value.Inhabits values s.params := by
    subst same
    exact Signature.eq_of_fits all definite fits ▸ args
  have count (fixed : ∀ p ∈ s.params, p.isVariadic = false) := length_of_fits fixed fits args
  cases b with
  | arith op =>
    refine answers_arith inside ?_ m
    simp only [overloads, List.mem_cons, List.not_mem_nil, or_false] at inside
    rcases inside with same | same <;> exact ground same (by simp [Ty.isGround])
  | compare op =>
    refine answers_compare inside ?_ m
    simp only [overloads, List.mem_cons, List.not_mem_nil, or_false] at inside
    rcases inside with same | same | same <;> exact ground same (by simp [Ty.isGround])
  | not =>
    obtain rfl := List.mem_singleton.1 inside
    obtain ⟨v, rfl, holds⟩ := exists_one (ground rfl (by simp [Ty.isGround]))
    obtain ⟨b, rfl⟩ := Value.eq_of_inhabits_bool holds
    have negated : Gives .bool (negate (.bool b)) := Value.Inhabits.bool _
    exact answers_give negated
  | equal =>
    obtain rfl := List.mem_singleton.1 inside
    exact answers_onTwo (count (by simp [Signature.declared, Ty.isVariadic])) fun _ _ => .bool _
  | display =>
    obtain rfl := List.mem_singleton.1 inside
    exact answers_write m _
  | newline =>
    obtain rfl := List.mem_singleton.1 inside
    obtain rfl := List.length_eq_zero_iff.1 (count (by simp [Signature.declared]))
    exact answers_write m ["\n"]
  | cons =>
    obtain rfl := List.mem_singleton.1 inside
    exact answers_onTwo (count (by simp [Signature.declared, Ty.isVariadic])) fun _ _ => .any _
  | car =>
    obtain rfl := List.mem_singleton.1 inside
    refine answers_onOne (count (by simp [Signature.declared, Ty.isVariadic])) fun v => ?_
    cases v <;> first | exact Value.Inhabits.any _ | exact .inr rfl
  | cdr =>
    obtain rfl := List.mem_singleton.1 inside
    refine answers_onOne (count (by simp [Signature.declared, Ty.isVariadic])) fun v => ?_
    cases v <;> first | exact Value.Inhabits.any _ | exact .inr rfl
  | list =>
    obtain rfl := List.mem_singleton.1 inside
    exact ⟨.any _, rfl, rfl⟩
  | length =>
    have ret : s.ret = .int ∧ ∀ p ∈ s.params, p.isVariadic = false := by
      simp only [overloads, List.mem_cons, List.not_mem_nil, or_false] at inside
      rcases inside with rfl | rfl <;> simp [Signature.declared, Ty.isVariadic]
    have one : s.params.length = 1 := by
      simp only [overloads, List.mem_cons, List.not_mem_nil, or_false] at inside
      rcases inside with rfl | rfl <;> rfl
    rw [ret.1]
    exact answers_onOne ((count ret.2).trans one) gives_size
  | append =>
    obtain rfl := List.mem_singleton.1 inside
    exact answers_give (gives_concat values)
  | reverse =>
    obtain rfl := List.mem_singleton.1 inside
    exact answers_onOne (count (by simp [Signature.declared, Ty.isVariadic])) fun _ =>
      gives_items fun _ => Value.Inhabits.any _
  | isNull =>
    obtain rfl := List.mem_singleton.1 inside
    exact answers_onOne (count (by simp [Signature.declared, Ty.isVariadic])) fun _ => .bool _
  | eval =>
    obtain rfl := List.mem_singleton.1 inside
    obtain ⟨v, rfl⟩ := List.length_eq_one_iff.1 (count (by simp [Signature.declared, Ty.isVariadic]))
    cases args with
    | cons holds _ =>
      have plain := Value.not_quoted_of_inhabits (data _ List.mem_cons_self)
        (definite _ List.mem_cons_self) holds
      cases v with
      | quoted node => exact absurd rfl (plain node)
      | _ => exact ⟨.any _, rfl, rfl⟩

end Builtin

end CheckedLisp
