import CheckedLisp.Eval.Builtin
import CheckedLisp.Proofs.Sequencing

/-! A list is a chain of pairs that ends in unit, and the chains that do are the lists of values. On
them the functions for lists compute what they are named for, and only a length that is no word is
refused. Other values are refused, and a refused call names the first argument that is no list. -/
namespace CheckedLisp

namespace Value

/-- A chain of pairs that ends in unit. -/
def Proper : Value → Prop
  | unit => True
  | pair _ cdr => cdr.Proper
  | _ => False

theorem proper_ofList (items : List Value) : (ofList items).Proper := by
  induction items with
  | nil => trivial
  | cons first rest ih => exact ih

theorem toList?_eq_none_of_not_proper {value : Value} (improper : ¬value.Proper) : value.toList? = none := by
  induction value with
  | unit => exact absurd trivial improper
  | pair car cdr _ ih => rw [toList?, ih improper, Option.map_none]
  | _ => rfl

/-- The proper lists are the lists of values. -/
theorem proper_iff {value : Value} : value.Proper ↔ ∃ items, value.toList? = some items ∧ ofList items = value := by
  constructor
  · intro proper
    induction value with
    | unit => exact ⟨[], rfl, rfl⟩
    | pair car cdr _ ih =>
      obtain ⟨rest, listed, same⟩ := ih proper
      exact ⟨car :: rest, by rw [toList?, listed, Option.map_some], by rw [ofList, same]⟩
    | _ => exact proper.elim
  · rintro ⟨items, -, rfl⟩
    exact proper_ofList items

end Value

namespace Builtin

open Value (ofList)

/-- Among the arguments `value` is the first that is no list. -/
def FirstImproper (value : Value) (args : List Value) : Prop :=
  ∃ before after, args = before ++ value :: after ∧ (∀ arg ∈ before, arg.Proper) ∧ ¬value.Proper

@[simp] theorem items_ofList (xs : List Value) : items (ofList xs) = .ok xs := by
  simp [items]

theorem items_of_not_proper {value : Value} (improper : ¬value.Proper) :
    items value = .error (.improperList value) := by
  rw [items, Value.toList?_eq_none_of_not_proper improper]

/-- Either all arguments are lists, or there is a first that is none. -/
theorem lists_or_firstImproper (args : List Value) :
    (∃ lists : List (List Value), args = lists.map ofList) ∨ ∃ value, FirstImproper value args := by
  induction args with
  | nil => exact .inl ⟨[], rfl⟩
  | cons arg args ih =>
    by_cases proper : arg.Proper
    · obtain ⟨items, -, rfl⟩ := Value.proper_iff.1 proper
      rcases ih with ⟨lists, rfl⟩ | ⟨value, before, after, rfl, proper', improper⟩
      · exact .inl ⟨items :: lists, rfl⟩
      · exact .inr ⟨value, ofList items :: before, after, rfl, List.forall_mem_cons.2 ⟨proper, proper'⟩, improper⟩
    · exact .inr ⟨arg, [], args, rfl, List.forall_mem_nil _, proper⟩

theorem count_of_le {n : Nat} (small : (n : Int) ≤ Int64.maxValue.toInt) :
    count n = .ok (.int (Int64.ofNat n)) := by
  have least : Int64.minValue.toInt ≤ n := Int.le_trans (by decide) (Int.natCast_nonneg n)
  rw [count, word?, if_pos ⟨least, small⟩, Int64.ofInt_eq_ofNat]

/-- A length is refused only if it is no word. -/
theorem count_eq_error_iff {n : Nat} : count n = .error (.overflow .length () ()) ↔ Int64.maxValue.toInt < n := by
  constructor
  · intro refused
    refine Int.lt_of_not_ge fun small => ?_
    rw [count_of_le small] at refused
    cases refused
  · intro large
    rw [count, word?, if_neg fun both => Int.not_le.2 large both.2]

theorem size_ofList (xs : List Value) : size (ofList xs) = count xs.length := by
  cases xs with
  | nil => rfl
  | cons first rest =>
    rw [ofList, size, ← ofList, items_ofList]
    exact pure_bind (first :: rest) fun items => count items.length

theorem concat_ofList (lists : List (List Value)) : concat (lists.map ofList) = .ok lists.flatten := by
  induction lists with
  | nil => rfl
  | cons items lists ih =>
    rw [List.map_cons, concat, items_ofList, ih]
    rfl

/-- Arguments are looked at in order, and the first that is no list ends the call. -/
theorem concat_of_firstImproper {value : Value} {args : List Value} (first : FirstImproper value args) :
    concat args = .error (.improperList value) := by
  obtain ⟨before, after, rfl, proper, improper⟩ := first
  induction before with
  | nil =>
    rw [List.nil_append, concat, items_of_not_proper improper]
    rfl
  | cons arg before ih =>
    obtain ⟨properArg, properOthers⟩ := List.forall_mem_cons.1 proper
    obtain ⟨items, -, rfl⟩ := Value.proper_iff.1 properArg
    rw [List.cons_append, concat, items_ofList, ih properOthers]
    rfl

theorem give_eq_refuse {outcome : Outcome} {fault : Fault} : give outcome = refuse fault ↔ outcome = .error fault := by
  constructor
  · intro same
    have results := congrFun same (Machine.start 0 none)
    cases outcome <;> cases results
    rfl
  · rintro rfl
    rfl

section

variable (eval : Scope → Node → Run Value) (frame : Scope)

theorem call_append_ofList (lists : List (List Value)) :
    append.call eval frame (lists.map ofList) = pure (ofList lists.flatten) := by
  rw [call, concat_ofList]
  rfl

theorem call_append_two (xs ys : List Value) :
    append.call eval frame [ofList xs, ofList ys] = pure (ofList (xs ++ ys)) := by
  have joined := call_append_ofList eval frame [xs, ys]
  rwa [List.flatten_cons, List.flatten_singleton] at joined

theorem call_append_refused_iff (args : List Value) (value : Value) :
    append.call eval frame args = refuse (.improperList value) ↔ FirstImproper value args := by
  rw [call, give_eq_refuse]
  constructor
  · intro refused
    rcases lists_or_firstImproper args with ⟨lists, rfl⟩ | ⟨value', first⟩
    · rw [concat_ofList] at refused
      cases refused
    · rw [concat_of_firstImproper first] at refused
      cases refused
      exact first
  · intro first
    rw [concat_of_firstImproper first]
    rfl

theorem call_append_refused_some_iff (args : List Value) :
    (∃ value, append.call eval frame args = refuse (.improperList value)) ↔ ∃ arg ∈ args, ¬arg.Proper := by
  simp only [call_append_refused_iff]
  constructor
  · rintro ⟨value, before, after, rfl, -, improper⟩
    exact ⟨value, by simp, improper⟩
  · rintro ⟨arg, member, improper⟩
    rcases lists_or_firstImproper args with ⟨lists, rfl⟩ | first
    · obtain ⟨items, -, rfl⟩ := List.mem_map.1 member
      exact absurd (Value.proper_ofList items) improper
    · exact first

theorem call_reverse_ofList (xs : List Value) : reverse.call eval frame [ofList xs] = pure (ofList xs.reverse) := by
  rw [call, onOne, backward, items_ofList]
  rfl

theorem call_reverse_refused_iff (value value' : Value) :
    reverse.call eval frame [value] = refuse (.improperList value') ↔ value' = value ∧ ¬value.Proper := by
  rw [call, onOne, give_eq_refuse, backward]
  by_cases proper : value.Proper
  · obtain ⟨items, -, rfl⟩ := Value.proper_iff.1 proper
    rw [items_ofList]
    exact iff_of_false (by rintro ⟨⟩) fun both => both.2 proper
  · rw [items_of_not_proper proper]
    constructor
    · rintro ⟨⟩
      exact ⟨rfl, proper⟩
    · rintro ⟨rfl, -⟩
      rfl

theorem call_length_ofList {xs : List Value} (small : (xs.length : Int) ≤ Int64.maxValue.toInt) :
    length.call eval frame [ofList xs] = pure (.int (Int64.ofNat xs.length)) := by
  rw [call, onOne, size_ofList, count_of_le small]
  rfl

theorem call_length_refused_iff (xs : List Value) :
    length.call eval frame [ofList xs] = refuse (.overflow .length () ()) ↔
      Int64.maxValue.toInt < xs.length := by
  rw [call, onOne, give_eq_refuse, size_ofList]
  exact count_eq_error_iff

end

/-- What calls of the functions for lists have to do with lists of values. -/
structure ListLaws (call : Builtin → List Value → Call Value) : Prop where
  toList?_ofList : ∀ xs, (ofList xs).toList? = some xs
  ofList_toList? : ∀ value : Value, value.Proper ↔ ∃ xs, value.toList? = some xs ∧ ofList xs = value
  append : ∀ lists : List (List Value), call .append (lists.map ofList) = pure (ofList lists.flatten)
  append_assoc : ∀ xs ys zs,
    (do call .append [← call .append [ofList xs, ofList ys], ofList zs]) =
      (do call .append [ofList xs, ← call .append [ofList ys, ofList zs]])
  append_unit : ∀ xs, call .append [ofList xs, .unit] = pure (ofList xs)
  unit_append : ∀ xs, call .append [.unit, ofList xs] = pure (ofList xs)
  reverse : ∀ xs, call .reverse [ofList xs] = pure (ofList xs.reverse)
  reverse_reverse : ∀ xs, (do call .reverse [← call .reverse [ofList xs]]) = pure (ofList xs)
  reverse_append : ∀ xs ys,
    (do call .reverse [← call .append [ofList xs, ofList ys]]) =
      (do call .append [← call .reverse [ofList ys], ← call .reverse [ofList xs]])
  length : ∀ xs, (xs.length : Int) ≤ Int64.maxValue.toInt →
    call .length [ofList xs] = pure (.int (Int64.ofNat xs.length))
  /-- The word is the number of items. -/
  length_exact : ∀ xs, (xs.length : Int) ≤ Int64.maxValue.toInt →
    ∃ n : Int64, call .length [ofList xs] = pure (.int n) ∧ n.toInt = xs.length
  length_append : ∀ xs ys, (xs.length + ys.length : Int) ≤ Int64.maxValue.toInt →
    (do call .length [← call .append [ofList xs, ofList ys]]) =
      pure (.int (Int64.ofNat xs.length + Int64.ofNat ys.length))
  /-- A list is too long if and only if no word counts its items. -/
  length_refused : ∀ xs,
    call .length [ofList xs] = refuse (.overflow .length () ()) ↔ Int64.maxValue.toInt < xs.length
  /-- The first argument that is no list is the one that is named. -/
  append_refused : ∀ args value, call .append args = refuse (.improperList value) ↔ FirstImproper value args
  append_refused_some : ∀ args,
    (∃ value, call .append args = refuse (.improperList value)) ↔ ∃ arg ∈ args, ¬arg.Proper
  reverse_refused : ∀ value value',
    call .reverse [value] = refuse (.improperList value') ↔ value' = value ∧ ¬value.Proper

/-- The functions for lists form an algebra of lists, in whatever frame they are called. -/
theorem listLaws_call (eval : Scope → Node → Run Value) (frame : Scope) :
    ListLaws fun function => function.call eval frame where
  toList?_ofList := Value.toList?_ofList
  ofList_toList? _ := Value.proper_iff
  append := call_append_ofList eval frame
  append_assoc xs ys zs := by simp only [call_append_two, pure_bind, List.append_assoc]
  append_unit xs := by
    have joined := call_append_two eval frame xs []
    rwa [List.append_nil] at joined
  unit_append := call_append_two eval frame []
  reverse := call_reverse_ofList eval frame
  reverse_reverse xs := by simp only [call_reverse_ofList, pure_bind, List.reverse_reverse]
  reverse_append xs ys := by
    simp only [call_append_two, call_reverse_ofList, pure_bind, List.reverse_append]
  length _ := call_length_ofList eval frame
  length_exact xs small := by
    have greatest : Int64.maxValue.toInt = 9223372036854775807 := rfl
    exact ⟨_, call_length_ofList eval frame small, Int64.toInt_ofNat_of_lt (by omega)⟩
  length_append xs ys small := by
    have joined : ((xs ++ ys).length : Int) ≤ Int64.maxValue.toInt := by
      rw [List.length_append, Int.natCast_add]
      exact small
    simp only [call_append_two, pure_bind, call_length_ofList eval frame joined, List.length_append, Int64.ofNat_add]
  length_refused := call_length_refused_iff eval frame
  append_refused := call_append_refused_iff eval frame
  append_refused_some := call_append_refused_some_iff eval frame
  reverse_refused := call_reverse_refused_iff eval frame

end Builtin

end CheckedLisp
