import CheckedLisp.Proofs.Ty.RoundTrip
import CheckedLisp.Ty.Call
import Mathlib.Data.List.Forall2

/-! Arguments fit a signature when they go with its parameters one by one, where a variadic at the
end takes all that are left. The newest signature that fits decides a call, whatever comes of it;
where none fits, the call is refused for the reasons of all of them. -/
namespace CheckedLisp

theorem Ty.same_self (ty : Ty) : ty.same ty = true := by simp [same, beq_iff.2]

namespace Signature

/-- Arguments and parameters go together one by one. -/
abbrev Paired (params args : List Ty) : Prop :=
  List.Forall₂ (fun param arg => param.same arg = true) params args

/-- `Takes params args`: parameters take the arguments. -/
inductive Takes : List Ty → List Ty → Prop
  | fixed {params args : List Ty} (plain : ∀ param ∈ params, param.isVariadic = false)
      (paired : Paired params args) : Takes params args
  /-- A variadic at the end takes what is left, be it nothing. -/
  | variadic {fixed leading rest : List Ty} {element : Ty} (plain : ∀ param ∈ fixed, param.isVariadic = false)
      (paired : Paired fixed leading) (each : ∀ arg ∈ rest, element.same arg = true) :
      Takes (fixed ++ [.variadic element]) (leading ++ rest)

/-- Parameters with a variadic at the end take so many arguments or more than stand before
it, others as many as they are. -/
def Counts (params : List Ty) (count : Nat) : Prop :=
  if params.getLast?.any Ty.isVariadic then params.length ≤ count + 1 else params.length = count

/-- Why a signature does not fit: a variadic stands too early, there are too few or too many
arguments, or an argument does not go with its parameter, the first such argument. -/
inductive Refuses (s : Signature Ty) (args : List Ty) : Mismatch → Prop
  | misplaced {param : Ty} (early : param ∈ s.params.dropLast) (variadic : param.isVariadic = true) :
      Refuses s args (.misplacedVariadic s)
  | count (placed : ∀ param ∈ s.params.dropLast, param.isVariadic = false)
      (wrong : ¬ Counts s.params args.length) : Refuses s args (.arity s args.length)
  | argument {before after leading rest : List Ty} {expected got : Ty}
      (placed : ∀ param ∈ s.params.dropLast, param.isVariadic = false)
      (counted : Counts s.params args.length)
      (slots : s.slots args.length = before ++ expected :: after) (given : args = leading ++ got :: rest)
      (paired : Paired before leading) (wrong : expected.same got = false) :
      Refuses s args (.argument s (leading.length + 1) expected got)

section

variable {s : Signature Ty} {params args fixed : List Ty} {element : Ty} {index : Nat}

theorem wrongArgument?_of_paired (paired : Paired params args) : wrongArgument? index params args = none := by
  induction paired generalizing index with
  | nil => rfl
  | cons same _ ih => rw [wrongArgument?, if_pos same, ih]

theorem paired_of_wrongArgument? (count : params.length = args.length)
    (right : wrongArgument? index params args = none) : Paired params args := by
  induction params generalizing args index with
  | nil =>
    cases List.length_eq_zero_iff.1 count.symm
    exact .nil
  | cons param params ih =>
    cases args with
    | nil => cases count
    | cons arg args =>
      unfold wrongArgument? at right
      split at right
      · next same => exact .cons same (ih (Nat.succ.inj count) right)
      · cases right

theorem exists_of_wrongArgument? {place : Nat} {expected got : Ty}
    (wrong : wrongArgument? index params args = some (place, expected, got)) :
    ∃ before after leading rest, params = before ++ expected :: after ∧ args = leading ++ got :: rest ∧
      Paired before leading ∧ expected.same got = false ∧ place = leading.length + index := by
  induction params generalizing args index with
  | nil => cases wrong
  | cons param params ih =>
    cases args with
    | nil => cases wrong
    | cons arg args =>
      by_cases same : param.same arg
      · rw [wrongArgument?, if_pos same] at wrong
        obtain ⟨before, after, leading, rest, rfl, rfl, paired, apart, rfl⟩ := ih wrong
        refine ⟨param :: before, after, arg :: leading, rest, rfl, rfl, .cons same paired, apart, ?_⟩
        rw [List.length_cons]
        omega
      · rw [wrongArgument?, if_neg same] at wrong
        cases wrong
        exact ⟨[], params, [], args, rfl, rfl, .nil, by simpa using same, by simp⟩

theorem paired_replicate {count : Nat} :
    Paired (List.replicate count element) args ↔ args.length = count ∧ ∀ arg ∈ args, element.same arg = true := by
  induction count generalizing args with
  | zero => simp +contextual
  | succ count ih =>
    cases args with
    | nil => simp [List.replicate_succ]
    | cons arg args =>
      have cons : Paired (element :: List.replicate count element) (arg :: args) ↔
          element.same arg = true ∧ Paired (List.replicate count element) args := List.forall₂_cons
      rw [List.replicate_succ, cons, ih]
      simp only [List.length_cons, Nat.add_right_cancel_iff, List.forall_mem_cons]
      exact and_left_comm

theorem paired_append {more : List Ty} :
    Paired (params ++ more) args ↔
      ∃ leading rest, args = leading ++ rest ∧ Paired params leading ∧ Paired more rest := by
  constructor
  · intro paired
    refine ⟨args.take params.length, args.drop params.length, (List.take_append_drop _ _).symm, ?_, ?_⟩
    · simpa using List.forall₂_take params.length paired
    · simpa using List.forall₂_drop params.length paired
  · rintro ⟨leading, rest, rfl, first, second⟩
    exact List.rel_append first second

theorem takes_plain (plain : ∀ param ∈ params, param.isVariadic = false) : Takes params args ↔ Paired params args := by
  constructor
  · intro takes
    cases takes with
    | fixed _ paired => exact paired
    | variadic =>
      have absurdly := plain _ List.mem_concat_self
      cases absurdly
  · exact .fixed plain

theorem takes_variadic (plain : ∀ param ∈ fixed, param.isVariadic = false) :
    Takes (fixed ++ [.variadic element]) args ↔ ∃ leading rest, args = leading ++ rest ∧
      Paired fixed leading ∧ ∀ arg ∈ rest, element.same arg = true := by
  constructor
  · generalize same : fixed ++ [.variadic element] = params
    intro takes
    cases takes with
    | fixed plain' =>
      have absurdly := plain' (.variadic element) (by simp [← same])
      cases absurdly
    | variadic _ paired each =>
      obtain ⟨rfl, last⟩ := List.append_inj' same rfl
      cases last
      exact ⟨_, _, rfl, paired, each⟩
  · rintro ⟨leading, rest, rfl, paired, each⟩
    exact .variadic plain paired each

theorem Takes.placed (takes : Takes params args) : ∀ param ∈ params.dropLast, param.isVariadic = false := by
  cases takes with
  | fixed plain => exact fun param early => plain param (List.dropLast_subset _ early)
  | variadic plain => simpa using plain

/-- The last parameter says what a signature can take. -/
theorem params_cases (placed : ∀ param ∈ s.params.dropLast, param.isVariadic = false) :
    (∃ fixed element, s.params = fixed ++ [.variadic element] ∧ ∀ param ∈ fixed, param.isVariadic = false) ∨
      ∀ param ∈ s.params, param.isVariadic = false := by
  rcases List.eq_nil_or_concat' s.params with none | ⟨fixed, last, split⟩
  · exact .inr (by simp [none])
  · rw [split, List.dropLast_concat] at placed
    cases last with
    | variadic element => exact .inl ⟨fixed, element, split, placed⟩
    | _ =>
      right
      rw [split]
      intro param inside
      rcases List.mem_append.1 inside with early | isLast
      · exact placed param early
      · rw [List.mem_singleton.1 isLast]
        rfl

theorem slots_plain (plain : ∀ param ∈ s.params, param.isVariadic = false) (count : Nat) :
    s.slots count = s.params := by
  unfold slots
  split
  · next element last => cases plain _ (List.mem_of_getLast? last)
  · rfl

theorem slots_variadic (split : s.params = fixed ++ [.variadic element]) (count : Nat) :
    s.slots count =
      if fixed.length ≤ count then fixed ++ List.replicate (count - fixed.length) element else s.params := by
  simp [slots, split]

theorem counts_plain (plain : ∀ param ∈ params, param.isVariadic = false) {count : Nat} :
    Counts params count ↔ params.length = count := by
  have last : params.getLast?.any Ty.isVariadic = false := by
    cases found : params.getLast? with
    | none => rfl
    | some param => exact plain param (List.mem_of_getLast? found)
  simp [Counts, last]

theorem counts_variadic {count : Nat} : Counts (fixed ++ [.variadic element]) count ↔ fixed.length ≤ count := by
  simp [Counts, Ty.isVariadic]

/-- A signature has as many slots as there are arguments exactly when their number is right. -/
theorem length_slots_iff (placed : ∀ param ∈ s.params.dropLast, param.isVariadic = false) (count : Nat) :
    (s.slots count).length = count ↔ Counts s.params count := by
  rcases params_cases placed with ⟨fixed, element, split, -⟩ | plain
  · rw [slots_variadic split, split, counts_variadic]
    split
    · next enough => simp [enough]
    · next few =>
      simp only [List.length_append, List.length_singleton]
      omega
  · rw [slots_plain plain, counts_plain plain]

/-- Arguments in the right number go with the slots exactly when the parameters take them. -/
theorem paired_slots_iff (placed : ∀ param ∈ s.params.dropLast, param.isVariadic = false)
    (counted : Counts s.params args.length) : Paired (s.slots args.length) args ↔ Takes s.params args := by
  rcases params_cases placed with ⟨fixed, element, split, plain⟩ | plain
  · rw [split, counts_variadic] at counted
    rw [slots_variadic split, if_pos counted, split, takes_variadic plain, paired_append]
    simp only [paired_replicate]
    constructor
    · rintro ⟨leading, rest, same, paired, -, each⟩
      exact ⟨leading, rest, same, paired, each⟩
    · rintro ⟨leading, rest, rfl, paired, each⟩
      refine ⟨leading, rest, rfl, paired, ?_, each⟩
      rw [List.length_append, paired.length_eq, Nat.add_sub_cancel_left]
  · rw [slots_plain plain, takes_plain plain]

theorem Takes.counts (takes : Takes params args) : Counts params args.length := by
  cases takes with
  | fixed plain paired => exact (counts_plain plain).2 paired.length_eq
  | variadic _ paired =>
    rw [counts_variadic, paired.length_eq, List.length_append]
    exact Nat.le_add_right _ _

theorem placed_of_any (placed : s.params.dropLast.any Ty.isVariadic = false) :
    ∀ param ∈ s.params.dropLast, param.isVariadic = false := by
  simpa using placed

/-- Nothing is wrong with the arguments exactly when the parameters take them. -/
theorem mismatch?_eq_none : s.mismatch? args = none ↔ Takes s.params args := by
  unfold mismatch?
  cases early : s.params.dropLast.any Ty.isVariadic with
  | true =>
    obtain ⟨param, inside, variadic⟩ := List.any_eq_true.1 early
    refine iff_of_false (by simp) fun takes => ?_
    rw [takes.placed param inside] at variadic
    cases variadic
  | false =>
    have placed := placed_of_any early
    simp only [Bool.false_eq_true, if_false, ite_not]
    split
    · next counted =>
      rw [length_slots_iff placed] at counted
      rw [← paired_slots_iff placed counted, Option.map_eq_none_iff]
      constructor
      · exact paired_of_wrongArgument? ((length_slots_iff placed _).2 counted)
      · exact wrongArgument?_of_paired
    · next uncounted =>
      rw [length_slots_iff placed] at uncounted
      exact iff_of_false (by simp) fun takes => uncounted takes.counts

theorem refuses_of_mismatch? {reason : Mismatch} (refused : s.mismatch? args = some reason) :
    Refuses s args reason := by
  unfold mismatch? at refused
  cases early : s.params.dropLast.any Ty.isVariadic with
  | true =>
    rw [early] at refused
    cases refused
    obtain ⟨param, inside, variadic⟩ := List.any_eq_true.1 early
    exact .misplaced inside variadic
  | false =>
    have placed := placed_of_any early
    simp only [early, Bool.false_eq_true, if_false, ite_not] at refused
    split at refused
    · next counted =>
      rw [length_slots_iff placed] at counted
      obtain ⟨⟨place, expected, got⟩, wrong, rfl⟩ := Option.map_eq_some_iff.1 refused
      obtain ⟨before, after, leading, rest, slots, given, paired, apart, rfl⟩ := exists_of_wrongArgument? wrong
      exact .argument placed counted slots given paired apart
    · next uncounted =>
      rw [length_slots_iff placed] at uncounted
      cases refused
      exact .count placed uncounted

theorem fits_iff : s.fits args = true ↔ Takes s.params args := by
  rw [fits, Option.isNone_iff_eq_none, mismatch?_eq_none]

end

end Signature

namespace Candidate

variable {candidates newer older : List Candidate} {c : Candidate} {args : List Ty} {ty : Ty}

/-- The first candidate that takes the arguments decides. -/
theorem call_of_takes (others : ∀ n ∈ newer, ¬ Signature.Takes n.signature.params args)
    (takes : Signature.Takes c.signature.params args) : call (newer ++ c :: older) args = c.invoke args := by
  have found : (newer ++ c :: older).find? (·.signature.fits args) = some c := by
    rw [List.find?_eq_some_iff_append]
    refine ⟨Signature.fits_iff.2 takes, newer, older, rfl, ?_⟩
    intro n inside
    rw [Bool.not_eq_true', Bool.eq_false_iff, Ne, Signature.fits_iff]
    exact others n inside
  rw [call, found]

theorem exists_first (inside : ∃ c ∈ candidates, Signature.Takes c.signature.params args) :
    ∃ newer c older, candidates = newer ++ c :: older ∧ (∀ n ∈ newer, ¬ Signature.Takes n.signature.params args) ∧
      Signature.Takes c.signature.params args := by
  have some : (candidates.find? (·.signature.fits args)).isSome = true := by
    simpa only [List.find?_isSome, Signature.fits_iff] using inside
  obtain ⟨c, found⟩ := Option.isSome_iff_exists.1 some
  obtain ⟨fits, newer, older, split, others⟩ := List.find?_eq_some_iff_append.1 found
  refine ⟨newer, c, older, split, ?_, Signature.fits_iff.1 fits⟩
  intro n inside takes
  have refused := others n inside
  rw [Signature.fits_iff.2 takes] at refused
  cases refused

/-- Where no candidate takes the arguments, each has its reason. -/
theorem call_of_refused (others : ∀ c ∈ candidates, ¬ Signature.Takes c.signature.params args) :
    ∃ reasons, List.Forall₂ (fun c reason => Signature.Refuses c.signature args reason) candidates reasons ∧
      call candidates args = match reasons with
        | [reason] => .error (.mismatch reason)
        | reasons => .error (.noOverload args reasons) := by
  have unfit : candidates.find? (·.signature.fits args) = none := by
    rw [List.find?_eq_none]
    intro c inside
    rw [Signature.fits_iff]
    exact others c inside
  refine ⟨candidates.filterMap (·.signature.mismatch? args), ?_, ?_⟩
  · clear unfit
    induction candidates with
    | nil => exact .nil
    | cons c candidates ih =>
      obtain ⟨first, rest⟩ := List.forall_mem_cons.1 others
      rw [← Signature.mismatch?_eq_none] at first
      obtain ⟨reason, refused⟩ := Option.ne_none_iff_exists'.1 first
      simp only [List.filterMap_cons, refused]
      exact .cons (Signature.refuses_of_mismatch? refused) (ih rest)
  · unfold call
    split
    · next found => cases unfit.symm.trans found
    · rfl

/-- A successful call is decided by a candidate that takes the arguments. -/
theorem exists_of_call (called : call candidates args = .ok ty) :
    ∃ c ∈ candidates, c.signature.fits args = true ∧ c.invoke args = .ok ty := by
  unfold call at called
  split at called
  · next c found =>
    exact ⟨c, List.mem_of_find?_eq_some found, by simpa using List.find?_some found, called⟩
  · split at called <;> cases called

/-- Candidates that stand behind one that takes the arguments are not asked. -/
theorem call_append_of_takes (inside : ∃ c ∈ newer, Signature.Takes c.signature.params args) :
    call (newer ++ older) args = call newer args := by
  obtain ⟨before, c, after, rfl, others, takes⟩ := exists_first inside
  rw [List.append_assoc, List.cons_append, call_of_takes others takes, call_of_takes others takes]

/-- Candidates that do not take the arguments do not matter if some other one does. -/
theorem call_append_of_refused (others : ∀ n ∈ newer, ¬ Signature.Takes n.signature.params args)
    (inside : ∃ c ∈ older, Signature.Takes c.signature.params args) :
    call (newer ++ older) args = call older args := by
  obtain ⟨before, c, after, rfl, othersBefore, takes⟩ := exists_first inside
  have all : ∀ n ∈ newer ++ before, ¬ Signature.Takes n.signature.params args := by
    intro n member
    exact (List.mem_append.1 member).elim (others n) (othersBefore n)
  rw [← List.append_assoc, call_of_takes all takes, call_of_takes othersBefore takes]

end Candidate

/-- A declared signature gives what it declares. -/
theorem Signature.invoke_declared {s : Signature Ty} (ruled : s.rule = .constant s.ret) (args : List Ty) :
    s.candidate.invoke args = .ok s.ret := by
  rw [Candidate.invoke, candidate, ruled]
  change (if s.ret.same s.ret then Except.ok s.ret else _) = _
  rw [if_pos s.ret.same_self]

theorem callOverloads_of_takes {newer older : List (Signature Ty)} {s : Signature Ty} {args : List Ty}
    (others : ∀ n ∈ newer, ¬ Signature.Takes n.params args) (takes : Signature.Takes s.params args) :
    callOverloads (newer ++ s :: older) args = s.candidate.invoke args := by
  rw [callOverloads, List.map_append, List.map_cons]
  apply Candidate.call_of_takes _ takes
  rintro _ inside
  obtain ⟨n, member, rfl⟩ := List.mem_map.1 inside
  exact others n member

/-- How a call is resolved. The newest signature that takes the arguments decides it alone:
by the result of its body if that goes with what the signature declares, by the fault of
its body, or because the result is wrong. If none takes them, each refuses them for its own
reason; a single reason is the fault itself, several are gathered, the newest first. So
declared signatures give what the newest one that takes the arguments declares. -/
theorem call_resolved (candidates : List Candidate) (args : List Ty) :
    (∀ newer c older, candidates = newer ++ c :: older → (∀ n ∈ newer, ¬ Signature.Takes n.signature.params args) →
      Signature.Takes c.signature.params args →
      Candidate.call candidates args = match c.body args with
        | .ok result => if result.same c.signature.ret then .ok result else .error (.result c.signature result)
        | .error fault => .error fault) ∧
    ((∀ c ∈ candidates, ¬ Signature.Takes c.signature.params args) →
      ∃ reasons, List.Forall₂ (fun c reason => Signature.Refuses c.signature args reason) candidates reasons ∧
        Candidate.call candidates args = match reasons with
          | [reason] => .error (.mismatch reason)
          | reasons => .error (.noOverload args reasons)) ∧
    ∀ signatures newer s older, (∀ n ∈ signatures, n.rule = .constant n.ret) → signatures = newer ++ s :: older →
      (∀ n ∈ newer, ¬ Signature.Takes n.params args) → Signature.Takes s.params args →
      callOverloads signatures args = .ok s.ret := by
  refine ⟨?_, Candidate.call_of_refused, ?_⟩
  · rintro newer c older rfl others takes
    rw [Candidate.call_of_takes others takes, Candidate.invoke]
    cases c.body args <;> rfl
  · rintro _ newer s older declared rfl others takes
    rw [callOverloads_of_takes others takes]
    exact Signature.invoke_declared (declared s (by simp)) args

/-- The newest signature promises a number and finds a string, where an older one would do. -/
theorem call_resolved_broken :
    let broken := Signature.candidate ⟨[.string, .variadic .int], .int, .firstArgument⟩
    let older := Signature.candidate (.declared [.any, .any] .bool)
    Signature.Takes older.signature.params [.string, .int] ∧
      Candidate.call [broken, older] [.string, .int] = .error (.result broken.signature .string) ∧
      ∃ first second, Candidate.call [broken, older] [.bool] = .error (.noOverload [.bool] [first, second]) ∧
        Signature.Refuses broken.signature [.bool] first ∧ Signature.Refuses older.signature [.bool] second := by
  intro broken older
  have takes : Signature.Takes broken.signature.params [.string, .int] := Signature.fits_iff.1 (by decide +kernel)
  have decided := (call_resolved [broken, older] [.string, .int]).1 [] broken [older] rfl (by simp) takes
  have unfit : ∀ c ∈ [broken, older], ¬ Signature.Takes c.signature.params [.bool] := by
    simp only [List.forall_mem_cons, ← Signature.fits_iff]
    decide +kernel
  obtain ⟨reasons, each, refused⟩ := (call_resolved [broken, older] [.bool]).2.1 unfit
  cases each with
  | cons first rest =>
    cases rest with
    | cons second none =>
      cases none
      exact ⟨Signature.fits_iff.1 (by decide +kernel), decided, _, _, refused, first, second⟩

end CheckedLisp
