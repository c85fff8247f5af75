import CheckedLisp.Proofs.Check.Overloads
import CheckedLisp.Proofs.Ty.Join

/-! A call looks at all signatures of a function. Everywhere else, among the members of a union as
well, a type counts by its text alone. Types that agree in this much are alike; calls and joins of
types that are alike succeed alike and give types that are alike. -/
namespace CheckedLisp

namespace Ty

mutual

/-- A type as far as checking can tell it from others. -/
def core : Ty → Ty
  | callable newest older => callable (coreSignature newest) (coreSignatures older)
  | ty => ty.bare

def coreSignature : Signature Ty → Signature Ty
  | ⟨params, ret, _⟩ => .declared (bareAll params) (core ret)

def coreSignatures : List (Signature Ty) → List (Signature Ty)
  | [] => []
  | s :: rest => coreSignature s :: coreSignatures rest

end

theorem coreSignatures_eq_map (signatures : List (Signature Ty)) :
    coreSignatures signatures = signatures.map coreSignature := by
  induction signatures with
  | nil => rfl
  | cons s rest ih => rw [coreSignatures, ih, List.map_cons]

mutual

theorem bare_core : ∀ ty : Ty, ty.core.bare = ty.bare
  | callable newest _ => by rw [core, bare, bare, bareSignature_core newest]
  | union members => bare_bare (union members)
  | variadic element => bare_bare (variadic element)
  | unit | bool | int | float | string | any | ellipsis => rfl

theorem bareSignature_core : ∀ s : Signature Ty, bareSignature (coreSignature s) = bareSignature s
  | ⟨params, ret, _⟩ => by
    simp only [coreSignature, bareSignature, Signature.declared, bareAll_bareAll params, bare_core ret]

end

/-- No check tells the types apart. -/
def Alike (a b : Ty) : Prop := a.core = b.core

section

variable {a b c : Ty}

theorem Alike.refl (ty : Ty) : ty.Alike ty := rfl

theorem Alike.symm (alike : a.Alike b) : b.Alike a := Eq.symm alike

theorem Alike.trans (first : a.Alike b) (second : b.Alike c) : a.Alike c := Eq.trans first second

theorem Alike.bare (alike : a.Alike b) : a.bare = b.bare := by
  rw [← bare_core a, ← bare_core b, show a.core = b.core from alike]

theorem Alike.beq (alike : a.Alike b) : (a == b) = true := beq_iff.2 alike.bare

theorem isCallable_bare (ty : Ty) : ty.bare.isCallable = ty.isCallable := by cases ty <;> rfl

theorem isCondition_bare (ty : Ty) : ty.bare.isCondition = ty.isCondition := by cases ty <;> rfl

theorem isVariadic_bare (ty : Ty) : ty.bare.isVariadic = ty.isVariadic := by cases ty <;> rfl

theorem same_bare (a b : Ty) : a.bare.same b.bare = a.same b := by
  have equal : (a.bare == b.bare) = (a == b) := by
    rw [Bool.eq_iff_iff, beq_iff, beq_iff, bare_bare, bare_bare]
  rw [same, same, isAny_bare, isAny_bare, equal]

theorem Alike.isCallable (alike : a.Alike b) : a.isCallable = b.isCallable := by
  rw [← isCallable_bare a, ← isCallable_bare b, alike.bare]

theorem Alike.isCondition (alike : a.Alike b) : a.isCondition = b.isCondition := by
  rw [← isCondition_bare a, ← isCondition_bare b, alike.bare]

theorem Alike.same (alike : a.Alike b) : a.same c = b.same c := by
  rw [← same_bare a, ← same_bare b, alike.bare]

theorem eq_callable {ty : Ty} (callable : ty.isCallable = true) : ∃ newest older, ty = .callable newest older := by
  cases ty with
  | callable newest older => exact ⟨newest, older, rfl⟩
  | _ => cases callable

theorem core_of_data {ty : Ty} (data : ty.isCallable = false) : ty.core = ty.bare := by
  cases ty with
  | callable => cases data
  | _ => rfl

/-- Equal types that are no functions are alike. -/
theorem alike_of_beq (equal : (a == b) = true) (data : a.isCallable = false) : a.Alike b := by
  have bares := beq_iff.1 equal
  have data' : b.isCallable = false := by
    rw [← isCallable_bare, ← bares, isCallable_bare, data]
  rw [Alike, core_of_data data, core_of_data data', bares]

theorem alike_function {tys : List Ty} (alike : a.Alike b) : (function tys a).Alike (function tys b) := by
  simp only [Alike, function, core, coreSignature, Signature.declared, coreSignatures, show a.core = b.core from alike]

end

theorem params_core (s : Signature Ty) : (coreSignature s).params = s.params.map bare := by
  obtain ⟨params, ret, rule⟩ := s
  exact bareAll_eq_map params

theorem ret_core (s : Signature Ty) : (coreSignature s).ret = s.ret.core := by
  obtain ⟨params, ret, rule⟩ := s
  rfl

theorem slots_core (s : Signature Ty) (count : Nat) : (coreSignature s).slots count = (s.slots count).map bare := by
  simp only [Signature.slots, params_core, List.getLast?_map]
  cases s.params.getLast? with
  | none => rfl
  | some last =>
    cases last with
    | variadic element =>
      simp only [Option.map_some, bare, ← List.map_dropLast, List.length_map]
      split
      · rw [List.map_append, List.map_replicate]
      · rfl
    | _ => rfl

theorem wrongArgument?_bare (params args : List Ty) (index : Nat) :
    (Signature.wrongArgument? index (params.map bare) (args.map bare)).isNone =
      (Signature.wrongArgument? index params args).isNone := by
  induction params generalizing args index with
  | nil => rfl
  | cons param params ih =>
    cases args with
    | nil => rfl
    | cons arg args =>
      simp only [List.map_cons, Signature.wrongArgument?, same_bare]
      split
      · exact ih args (index + 1)
      · rfl

/-- Whether arguments fit depends on the texts of types alone. -/
theorem fits_core (s : Signature Ty) (args : List Ty) : (coreSignature s).fits (args.map bare) = s.fits args := by
  have variadics : (coreSignature s).params.dropLast.any isVariadic = s.params.dropLast.any isVariadic := by
    rw [params_core, ← List.map_dropLast, List.any_map]
    congr 1
    funext param
    exact isVariadic_bare param
  simp only [Signature.fits, Signature.mismatch?, variadics, slots_core, List.length_map]
  split
  · rfl
  · split
    · rfl
    · simpa only [Option.isNone_map] using wrongArgument?_bare (s.slots args.length) args 1

theorem find?_fits_core (signatures : List (Signature Ty)) (args : List Ty) :
    (signatures.find? (·.fits args)).map coreSignature =
      (signatures.map coreSignature).find? (·.fits (args.map bare)) := by
  rw [List.find?_map]
  congr 2
  funext s
  exact (fits_core s args).symm

theorem callOverloads_eq_ok {signatures : List (Signature Ty)} {args : List Ty} {ty : Ty}
    (ruled : ∀ s ∈ signatures, s.rule = .constant s.ret) :
    callOverloads signatures args = .ok ty ↔ ∃ s, signatures.find? (·.fits args) = some s ∧ s.ret = ty := by
  have same : (signatures.map Signature.candidate).find? (·.signature.fits args) =
      (signatures.find? (·.fits args)).map Signature.candidate := List.find?_map
  rw [callOverloads, Candidate.call, same]
  cases found : signatures.find? (·.fits args) with
  | none =>
    dsimp only [Option.map_none]
    split <;> simp
  | some s => simp [Signature.invoke_declared (ruled s (List.mem_of_find?_eq_some found))]

theorem core_callable (newest : Signature Ty) (older : List (Signature Ty)) :
    (callable newest older).core = callable (coreSignature newest) (older.map coreSignature) := by
  rw [core, coreSignatures_eq_map]

theorem Declared.ruled {newest : Signature Ty} {older : List (Signature Ty)}
    (normal : (callable newest older).Declared) : ∀ s ∈ newest :: older, s.rule = .constant s.ret := by
  cases normal with
  | callable ruled => exact ruled

theorem bares_of_alike {tys others : List Ty} (alike : tys.map core = others.map core) :
    tys.map bare = others.map bare := by
  have through (list : List Ty) : list.map bare = (list.map core).map bare := by simp [bare_core]
  rw [through tys, through others, alike]

/-- Functions that are alike, called with arguments that are alike. -/
theorem callOverloads_alike {newest newest' : Signature Ty} {older older' : List (Signature Ty)}
    {args args' : List Ty} {ty : Ty} (alike : (callable newest older).Alike (callable newest' older'))
    (alikeArgs : args.map core = args'.map core) (normal : (callable newest older).Declared)
    (normal' : (callable newest' older').Declared) (called : callOverloads (newest :: older) args = .ok ty) :
    ∃ ty', callOverloads (newest' :: older') args' = .ok ty' ∧ ty.Alike ty' := by
  simp only [Alike, core_callable, callable.injEq] at alike
  have signatures : (newest :: older).map coreSignature = (newest' :: older').map coreSignature := by
    rw [List.map_cons, List.map_cons, alike.1, alike.2]
  obtain ⟨s, found, rfl⟩ := (callOverloads_eq_ok (Declared.ruled normal)).1 called
  have both := find?_fits_core (newest' :: older') args'
  rw [← signatures, ← bares_of_alike alikeArgs, ← find?_fits_core, found] at both
  obtain ⟨s', found', same⟩ := Option.map_eq_some_iff.1 both
  refine ⟨s'.ret, (callOverloads_eq_ok (Declared.ruled normal')).2 ⟨s', found', rfl⟩, ?_⟩
  rw [Alike, ← ret_core, ← ret_core, same]

theorem Below.congr {a b a' b' : Ty} (below : a.Below b) (same : a.bare = a'.bare) (same' : b.bare = b'.bare) :
    a'.Below b' := by
  have texts := texts_members_of_beq (beq_iff.2 same)
  have texts' := texts_members_of_beq (beq_iff.2 same')
  rcases below with isAny | ⟨definite, covers⟩
  · left
    rw [← isAny_bare, ← same', isAny_bare, isAny]
  · right
    rw [← isAny_bare, ← same, isAny_bare, ← texts']
    refine ⟨definite, ?_⟩
    intro member inside
    have shown : member.text ∈ a.members.map text := texts ▸ List.mem_map_of_mem inside
    obtain ⟨own, here, equal⟩ := List.mem_map.1 shown
    exact equal ▸ covers own here

/-- A function is the join of functions that have its text; the last of them is left. -/
theorem getLast?_eq_join {rules : Signature Ty → Prop} {tys : List Ty} (normal : ∀ ty ∈ tys, ty.NormalUnder rules)
    (callable : (join tys).isCallable = true) : tys.getLast? = some (join tys) := by
  have definite : tys.any isAny = false := by
    rw [Bool.eq_false_iff]
    intro found
    rw [join, if_pos found] at callable
    cases callable
  rw [join_eq definite] at callable ⊢
  obtain ⟨only, single⟩ : ∃ only, insertAll (tys.flatMap members) [] = [only] := by
    generalize insertAll (tys.flatMap members) [] = found at callable ⊢
    rcases found with _ | ⟨only, _ | ⟨next, others⟩⟩
    · cases callable
    · exact ⟨only, rfl⟩
    · cases callable
  rw [single, ofMembers]
  have texts : ∀ ty ∈ tys, ∀ member ∈ ty.members, member.text = only.text := by
    intro ty here member inside
    have found : member.text ∈ (insertAll (tys.flatMap members) []).map Ty.text :=
      text_mem_insertAll.2 (.inl (List.mem_map_of_mem (List.mem_flatMap.2 ⟨ty, here, inside⟩)))
    simpa [single] using found
  rcases List.eq_nil_or_concat' tys with rfl | ⟨before, last, rfl⟩
  · cases single
  · have alone : last.isUnion = false := by
      have here : last ∈ before ++ [last] := by simp
      cases normal last here with
      | @union parts several sorted =>
        have same := texts _ here
        rcases parts with _ | ⟨first, _ | ⟨second, rest⟩⟩
        · simp at several
        · simp at several
        · have increasing := (List.pairwise_cons.1 sorted).1 second List.mem_cons_self
          rw [same first (by simp [members]), same second (by simp [members])] at increasing
          exact absurd increasing (String.lt_irrefl _)
      | _ => rfl
    have inserted : insertAll ((before ++ [last]).flatMap members) [] =
        insert last (insertAll (before.flatMap members) []) := by
      simp [insertAll, members_of_isUnion alone]
    have kept : last ∈ insertAll ((before ++ [last]).flatMap members) [] := by
      rw [inserted]
      exact mem_insert_of_eq rfl
    rw [single, List.mem_singleton] at kept
    rw [kept, List.getLast?_concat]

theorem sameTypes_of_bares {tys others : List Ty} (same : tys.map bare = others.map bare) : SameTypes tys others := by
  have found : ∀ {list list' : List Ty}, list.map bare = list'.map bare →
      ∀ ty ∈ list, ∃ other ∈ list', (ty == other) = true := by
    intro list list' equal ty here
    have shown : ty.bare ∈ list'.map bare := equal ▸ List.mem_map_of_mem here
    obtain ⟨other, there, bares⟩ := List.mem_map.1 shown
    exact ⟨other, there, beq_iff.2 bares.symm⟩
  exact ⟨found same, found same.symm⟩

theorem sameTypes_swap (a b : Ty) : SameTypes [a, b] [b, a] := by
  simp [SameTypes, beq_iff]

theorem bare_join {tys others : List Ty} (same : SameTypes tys others) : (join tys).bare = (join others).bare :=
  beq_iff.1 ((text_eq_iff _ _).1 (text_join_of_sameTypes same))

theorem alike_join {tys others : List Ty} (alike : tys.map core = others.map core) (normal : ∀ ty ∈ tys, ty.Declared)
    (normal' : ∀ ty ∈ others, ty.Declared) : (join tys).Alike (join others) := by
  have bares := bare_join (sameTypes_of_bares (bares_of_alike alike))
  cases callable : (join tys).isCallable with
  | false => exact alike_of_beq (beq_iff.2 bares) callable
  | true =>
    have callable' : (join others).isCallable = true := by
      rw [← isCallable_bare, ← bares, isCallable_bare, callable]
    have last := congrArg (Option.map core) (getLast?_eq_join normal callable)
    have last' := congrArg (Option.map core) (getLast?_eq_join normal' callable')
    rw [← List.getLast?_map, alike, List.getLast?_map, last'] at last
    exact (Option.some.inj last).symm

theorem below_join_right {rules : Signature Ty → Prop} {ty other : Ty} (normal : ty.NormalUnder rules)
    (normal' : other.NormalUnder rules) : other.Below (join [ty, other]) :=
  (below_join normal' normal).congr rfl (bare_join (sameTypes_swap other ty))

/-- A type that is no function takes in what is below it. -/
theorem alike_join_of_below {ty wider : Ty} (normal : wider.Declared) (data : wider.isCallable = false)
    (below : ty.Below wider) : (join [wider, ty]).Alike wider := by
  have bares := bare_join (sameTypes_swap ty wider)
  rw [join_eq_of_below normal below] at bares
  exact (alike_of_beq (beq_iff.2 bares) data).symm

theorem alike_overload {newest newest' newer newer' : Signature Ty} {older older' others others' : List (Signature Ty)}
    (alike : (callable newest older).Alike (callable newest' older'))
    (alike' : (callable newer others).Alike (callable newer' others')) :
    (callable newer (others ++ newest :: older)).Alike (callable newer' (others' ++ newest' :: older')) := by
  simp only [Alike, core_callable, callable.injEq] at alike alike' ⊢
  simp only [List.map_append, List.map_cons, alike.1, alike.2, alike'.1, alike'.2, and_self]

end Ty

end CheckedLisp
