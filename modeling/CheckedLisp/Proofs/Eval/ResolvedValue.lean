import CheckedLisp.Proofs.Eval.WellScoped
import CheckedLisp.Proofs.Node.Binding
import CheckedLisp.Proofs.Scope.Confinement

/-! A closure is code that a later call evaluates. What it resolves, it resolves in the scope it was
made in and behind its parameters, and names stay in sight. -/
namespace CheckedLisp

/-- The body of every closure in the value resolves `x`, with what the scope of the closure
sees. Of quoted code nothing is known. -/
def Value.Resolves (x : String) (h : Heap Value Unit) : Value → Prop
  | lambda closure => ∃ bound, (bound = true → h.Sees closure.scope x) ∧
      closure.body.resolves x (bound || closure.params.any (·.text == x)) = true
  | pair car cdr => car.Resolves x h ∧ cdr.Resolves x h
  | quoted _ => False
  | _ => True

theorem Value.hereditary_resolves (x : String) (h : Heap Value Unit) :
    Value.Hereditary (Value.Resolves x h) where
  unit := trivial
  bool _ := trivial
  int _ := trivial
  float _ _ := trivial
  string _ := trivial
  pair _ _ := .rfl

/-- Names stay in sight, so closures keep what they resolve. -/
theorem Value.Resolves.later {x : String} {h h' : Heap Value Unit} {s : Scope} {value : Value}
    (resolves : value.Resolves x h) (confined : h.Confined s h') (ordered : h.Ordered)
    (within : value.Within h.next) : value.Resolves x h' := by
  induction value with
  | lambda closure =>
    obtain ⟨bound, seen, body⟩ := resolves
    exact ⟨bound, fun isBound => confined.sees ordered within (seen isBound), body⟩
  | pair car cdr ihCar ihCdr => exact ⟨ihCar resolves.1 within.1, ihCdr resolves.2 within.2⟩
  | quoted node => exact resolves.elim
  | _ => trivial

/-- Frames whose values resolve `x`. -/
structure Heap.Resolved (x : String) (h : Heap Value Unit) : Prop where
  sound : h.WellScoped
  values : ∀ t frame, h.frame? t = some frame → ∀ binding ∈ frame.bindings, binding.2.Resolves x h

namespace Heap.Resolved

variable {x : String} {h h' : Heap Value Unit} {s : Scope}

/-- Values that were bound before need no second look. -/
theorem later (resolved : h.Resolved x) (confined : h.Confined s h') (sound' : h'.WellScoped)
    (each : ∀ t frame', h'.frame? t = some frame' → ∀ binding ∈ frame'.bindings,
      binding.2.Resolves x h' ∨ ∃ u frame, h.frame? u = some frame ∧ binding ∈ frame.bindings) :
    h'.Resolved x := by
  refine ⟨sound', ?_⟩
  intro t frame' found binding member
  rcases each t frame' found binding member with new | ⟨u, frame, foundOld, memberOld⟩
  · exact new
  · have within := resolved.sound.values u frame foundOld binding memberOld
    exact (resolved.values u frame foundOld binding memberOld).later confined resolved.sound.ordered within

theorem child (resolved : h.Resolved x) {parent : Scope} (live : parent < h.next) (function : Option Unit) :
    (h.add (some parent) function).Resolved x := by
  apply resolved.later (confined_add parent live function) (resolved.sound.child live function)
  intro t frame' found binding member
  rcases frame?_add_cases found with old | ⟨_, rfl⟩
  · exact .inr ⟨t, frame', old, member⟩
  · cases member

theorem modify (resolved : h.Resolved x) {t : Scope} {change : Frame Value Unit → Frame Value Unit}
    (confined : h.Confined s (h.modify t change)) (sound' : (h.modify t change).WellScoped) {value : Value}
    (given : value.Resolves x (h.modify t change))
    (changed : ∀ frame : Frame Value Unit, ∀ binding ∈ (change frame).bindings,
      binding ∈ frame.bindings ∨ binding.2 = value) : (h.modify t change).Resolved x := by
  apply resolved.later confined sound'
  intro u frame' found binding member
  rw [frame?_modify] at found
  split at found
  · obtain ⟨frame, foundOld, rfl⟩ := Option.map_eq_some_iff.1 found
    rcases changed frame binding member with old | new
    · exact .inr ⟨u, frame, foundOld, old⟩
    · exact .inl (new ▸ given)
  · exact .inr ⟨u, frame', found, member⟩

/-- The value may count on its own definition. -/
theorem define (resolved : h.Resolved x) (name : String) {value : Value} (within : value.Within h.next)
    (given : value.Resolves x (h.define s name value).2) : (h.define s name value).2.Resolved x := by
  have confined := confined_define h s name value
  have sound' := resolved.sound.define s name within
  by_cases taken : h.bindsIn s name
  · have refused : (h.define s name value).2 = h := by simp [Heap.define, taken]
    rw [refused]
    exact resolved
  · have accepted : (h.define s name value).2 = h.modify s (·.bind name value) := by simp [Heap.define, taken]
    rw [accepted] at confined sound' given ⊢
    apply resolved.modify confined sound' given
    intro frame binding member
    rcases List.mem_cons.1 member with rfl | old
    · exact .inr rfl
    · exact .inl old

theorem assign (resolved : h.Resolved x) (name : String) {value : Value} (within : value.Within h.next)
    (given : value.Resolves x h) : (h.assign s name value).2.Resolved x := by
  have confined := confined_assign h s s name value
  have sound' := resolved.sound.assign s name within
  have given' := given.later confined resolved.sound.ordered within
  cases binder : h.binder? s name with
  | none =>
    have refused : (h.assign s name value).2 = h := by simp [Heap.assign, binder]
    rw [refused]
    exact resolved
  | some t =>
    have accepted : (h.assign s name value).2 = h.modify t (·.rebind name value) := by simp [Heap.assign, binder]
    rw [accepted] at confined sound' given' ⊢
    apply resolved.modify confined sound' given'
    intro frame binding member
    exact Frame.mem_of_mem_replace member

theorem lookup (resolved : h.Resolved x) {name : String} {value : Value}
    (found : h.lookup s name = some value) : value.Resolves x h := by
  obtain ⟨t, frame, foundFrame, member⟩ := mem_of_lookup found
  exact resolved.values t frame foundFrame (name, value) member

end Heap.Resolved

end CheckedLisp
