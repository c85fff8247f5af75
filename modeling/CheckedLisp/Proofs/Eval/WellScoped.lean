import CheckedLisp.Proofs.Eval.BuiltinResult
import CheckedLisp.Proofs.Scope.View

/-! A closure remembers a scope. Well scoped are the frames whose parents are older and whose values
hold only scopes that have a frame. What becomes of a property of all bound values is said once, for
any property. -/
namespace CheckedLisp

/-- Every closure in the value belongs to a frame below `bound`. -/
def Value.Within (bound : Nat) : Value → Prop
  | lambda closure => closure.scope < bound
  | pair car cdr => car.Within bound ∧ cdr.Within bound
  | _ => True

theorem Value.Within.mono {bound bound' : Nat} (le : bound ≤ bound') {value : Value}
    (within : value.Within bound) : value.Within bound' := by
  induction value with
  | lambda closure => exact Nat.lt_of_lt_of_le within le
  | pair car cdr ihCar ihCdr => exact ⟨ihCar within.1, ihCdr within.2⟩
  | _ => trivial

theorem Value.hereditary_within (bound : Nat) : Value.Hereditary (Value.Within bound) where
  unit := trivial
  bool _ := trivial
  int _ := trivial
  float _ _ := trivial
  string _ := trivial
  pair _ _ := .rfl

/-- Every value that a frame binds has the property. -/
def Heap.Holds (P : Value → Prop) (h : Heap Value Unit) : Prop :=
  ∀ t frame, h.frame? t = some frame → ∀ binding ∈ frame.bindings, P binding.2

namespace Heap.Holds

variable {P : Value → Prop} {h : Heap Value Unit} {s : Scope} {name : String} {value : Value}

theorem add (holds : h.Holds P) (parent : Option Scope) (function : Option Unit) :
    (h.add parent function).Holds P := by
  intro t frame found binding member
  rcases frame?_add_cases found with old | ⟨_, rfl⟩
  · exact holds t frame old binding member
  · cases member

/-- What a changed frame binds, it bound before, or it is the new value. -/
theorem modify (holds : h.Holds P) (given : P value) (t : Scope) {change : Frame Value Unit → Frame Value Unit}
    (changed : ∀ frame : Frame Value Unit, ∀ binding ∈ (change frame).bindings,
      binding ∈ frame.bindings ∨ binding.2 = value) : (h.modify t change).Holds P := by
  intro u frame' found binding member
  rw [frame?_modify] at found
  split at found
  · obtain ⟨frame, foundOld, rfl⟩ := Option.map_eq_some_iff.1 found
    rcases changed frame binding member with old | new
    · exact holds u frame foundOld binding old
    · exact new ▸ given
  · exact holds u frame' found binding member

theorem bind (holds : h.Holds P) (s : Scope) (name : String) (given : P value) :
    (h.modify s (·.bind name value)).Holds P := by
  refine holds.modify given s ?_
  intro frame binding member
  rcases List.mem_cons.1 member with rfl | old
  · exact .inr rfl
  · exact .inl old

theorem rebind (holds : h.Holds P) (s : Scope) (name : String) (given : P value) :
    (h.modify s (·.rebind name value)).Holds P := by
  refine holds.modify given s ?_
  intro frame binding member
  exact Frame.mem_of_mem_replace member

theorem define (holds : h.Holds P) (s : Scope) (name : String) (given : P value) :
    (h.define s name value).2.Holds P := by
  unfold Heap.define
  split
  · exact holds
  · exact holds.bind s name given

theorem assign (holds : h.Holds P) (s : Scope) (name : String) (given : P value) :
    (h.assign s name value).2.Holds P := by
  unfold Heap.assign
  split
  · exact holds
  · exact holds.rebind _ name given

theorem lookup (holds : h.Holds P) (found : h.lookup s name = some value) : P value := by
  obtain ⟨t, frame, foundFrame, member⟩ := mem_of_lookup found
  exact holds t frame foundFrame (name, value) member

end Heap.Holds

/-- The global names are bound to truth values and built-in functions. -/
theorem Heap.holds_start {P : Value → Prop} (limit : Nat) (capacity : Option Nat) (bool : ∀ b, P (.bool b))
    (builtin : ∀ function, P (.builtin function)) : (Machine.start limit capacity).heap.Holds P := by
  intro t frame found binding member
  have only : frame = ⟨none, none, Machine.globals⟩ := by
    cases t with
    | zero => exact (Option.some.inj found).symm
    | succ t => cases found
  rw [only] at member
  rcases List.mem_append.1 member with constant | function
  · simp only [List.mem_cons, List.not_mem_nil, or_false] at constant
    rcases constant with rfl | rfl
    · exact bool true
    · exact bool false
  · obtain ⟨b, _, rfl⟩ := List.mem_map.1 function
    exact builtin b

/-- Parents are older than their children, and every bound closure leads to a frame. -/
structure Heap.WellScoped (h : Heap Value Unit) : Prop where
  ordered : h.Ordered
  values : ∀ t frame, h.frame? t = some frame → ∀ binding ∈ frame.bindings, binding.2.Within h.next

namespace Heap.WellScoped

variable {h : Heap Value Unit} {s : Scope} {name : String} {value : Value}

theorem add (sound : h.WellScoped) {parent : Option Scope} (live : ∀ t ∈ parent, t < h.next)
    (function : Option Unit) : (h.add parent function).WellScoped := by
  constructor
  · intro t frame above found isParent
    rcases frame?_add_cases found with old | ⟨rfl, rfl⟩
    · exact sound.ordered t frame above old isParent
    · exact live above isParent
  · intro t frame found binding member
    rcases frame?_add_cases found with old | ⟨rfl, rfl⟩
    · refine (sound.values t frame old binding member).mono ?_
      rw [next_add]
      exact Nat.le_succ _
    · cases member

theorem child (sound : h.WellScoped) {parent : Scope} (live : parent < h.next)
    (function : Option Unit) : (h.add (some parent) function).WellScoped := by
  apply sound.add
  intro t isParent
  cases isParent
  exact live

theorem modify (sound : h.WellScoped) (t : Scope) {change : Frame Value Unit → Frame Value Unit}
    (same : ∀ frame, (change frame).parent = frame.parent)
    (values : (h.modify t change).Holds (Value.Within h.next)) : (h.modify t change).WellScoped := by
  refine ⟨sound.ordered.modify t same, ?_⟩
  rw [next_modify]
  exact values

theorem define (sound : h.WellScoped) (s : Scope) (name : String) (within : value.Within h.next) :
    (h.define s name value).2.WellScoped := by
  unfold Heap.define
  split
  · exact sound
  · exact sound.modify s (fun _ => rfl) (Holds.bind sound.values s name within)

theorem assign (sound : h.WellScoped) (s : Scope) (name : String) (within : value.Within h.next) :
    (h.assign s name value).2.WellScoped := by
  unfold Heap.assign
  split
  · exact sound
  · exact sound.modify _ (fun _ => rfl) (Holds.rebind sound.values _ name within)

theorem lookup (sound : h.WellScoped) (found : h.lookup s name = some value) : value.Within h.next :=
  Holds.lookup sound.values found

end Heap.WellScoped

end CheckedLisp
