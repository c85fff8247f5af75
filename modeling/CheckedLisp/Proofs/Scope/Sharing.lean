import CheckedLisp.Proofs.Eval.Confinement
import CheckedLisp.Proofs.Scope.Acceptance

/-! Frames are shared: any number of closures and calls lead to the same one. A definition or an
assignment changes one name in one frame, and it is seen from exactly those scopes whose way outward
comes to that frame before any other frame that binds the name. -/
namespace CheckedLisp

namespace Frame

variable {α ρ : Type}

theorem lookup_rebind_self (f : Frame α ρ) {name : String} (value : α) (bound : f.binds name = true) :
    (f.rebind name value).lookup name = some value := by
  obtain ⟨old, held⟩ := Option.isSome_iff_exists.1 bound
  rw [lookup, rebind, lookup_replace, if_pos rfl, show f.bindings.lookup name = some old from held]
  rfl

theorem lookup_rebind_of_ne (f : Frame α ρ) {name other : String} (value : α) (differ : other ≠ name) :
    (f.rebind name value).lookup other = f.lookup other := by
  rw [lookup, rebind, lookup_replace, if_neg differ]
  rfl

end Frame

namespace Heap

variable {α ρ : Type} {h : Heap α ρ} {s t u parent : Scope} {name other : String} {value : α}
  {frame : Frame α ρ}

/-- Going outward, parent by parent, one comes to `t` before any other frame that binds `name`. -/
inductive Meets (h : Heap α ρ) (name : String) (t : Scope) : Scope → Prop
  | here : h.Meets name t t
  | outward {s parent : Scope} (above : h.parent? s = some parent) (free : h.bindsIn s name = false)
    (further : h.Meets name t parent) : h.Meets name t s

/-- Of the frames that `s` leads to, `t` is the first that binds `name`. -/
structure Nearest (h : Heap α ρ) (name : String) (t s : Scope) : Prop where
  meets : h.Meets name t s
  binds : h.bindsIn t name = true

/-- In `h'` the scopes in `reached` see `value` under `name`, and nothing else is seen that was
not seen in `h`. -/
def Observed (h h' : Heap α ρ) (name : String) (value : α) (reached : Scope → Prop) : Prop :=
  ∀ t < h.next, ∀ other,
    (other = name ∧ reached t → h'.lookup t other = some value) ∧
      (¬(other = name ∧ reached t) → h'.lookup t other = h.lookup t other)

theorem lookup_root (found : h.frame? s = some frame) (top : frame.parent = none) (name : String) :
    h.lookup s name = frame.lookup name := by
  simp only [lookup, chain_root found top, List.findSome?_singleton, found, Option.bind_some]

theorem lookup_child (ordered : h.Ordered) (found : h.frame? s = some frame)
    (above : frame.parent = some parent) (name : String) :
    h.lookup s name = (frame.lookup name).or (h.lookup parent name) := by
  rw [lookup, chain_child ordered found above, List.findSome?_cons, found, Option.bind_some]
  cases frame.lookup name <;> rfl

theorem meets_child (found : h.frame? s = some frame) (above : frame.parent = some parent) (apart : s ≠ t) :
    h.Meets name t s ↔ frame.lookup name = none ∧ h.Meets name t parent := by
  have isParent : h.parent? s = some parent := by rw [parent?, found, Option.bind_some, above]
  have free : h.bindsIn s name = false ↔ frame.lookup name = none := by
    simp [bindsIn, found, Frame.binds]
  constructor
  · intro meets
    cases meets with
    | here => exact absurd rfl apart
    | outward above' unbound further =>
      cases isParent.symm.trans above'
      exact ⟨free.1 unbound, further⟩
  · rintro ⟨unbound, further⟩
    exact .outward isParent (free.2 unbound) further

theorem not_meets_root (found : h.frame? s = some frame) (top : frame.parent = none) (apart : s ≠ t) :
    ¬h.Meets name t s := by
  intro meets
  cases meets with
  | here => exact apart rfl
  | outward above => simp [parent?, found, top] at above

/-- The search for a binding finds the first frame on the way outward that has one. -/
theorem binder?_eq_some_iff (ordered : h.Ordered) (live : s < h.next) :
    h.binder? s name = some t ↔ h.Nearest name t s := by
  refine chain_induction ordered (motive := fun s => h.binder? s name = some t ↔ h.Nearest name t s) ?_ ?_
    s live
  · intro s frame found top
    rw [binder?_root found top, ← bindsIn_of_frame? found]
    constructor
    · intro binder
      split at binder
      · next bound =>
        cases binder
        exact ⟨.here, bound⟩
      · cases binder
    · rintro ⟨meets, bound⟩
      by_cases same : s = t
      · subst same
        rw [if_pos bound]
      · exact absurd meets (not_meets_root found top same)
  · intro s frame parent found above ih
    rw [binder?_child ordered found above, ← bindsIn_of_frame? found]
    by_cases same : s = t
    · subst same
      have older := ordered s frame parent found above
      constructor
      · intro binder
        split at binder
        · next bound => exact ⟨.here, bound⟩
        · have within := binder?_le ordered (Nat.lt_trans older (lt_next_of_frame? found)) binder
          exact absurd older (Nat.not_lt.2 within)
      · intro nearest
        rw [if_pos nearest.binds]
    · have free : ¬h.bindsIn s name = true ↔ frame.lookup name = none := by
        simp [bindsIn, found, Frame.binds]
      constructor
      · intro binder
        split at binder
        · cases binder
          exact absurd rfl same
        · next unbound =>
          have nearest := ih.1 binder
          exact ⟨(meets_child found above same).2 ⟨free.1 unbound, nearest.meets⟩, nearest.binds⟩
      · rintro ⟨meets, bound⟩
        obtain ⟨unbound, further⟩ := (meets_child found above same).1 meets
        rw [if_neg (free.2 unbound)]
        exact ih.2 ⟨further, bound⟩

/-- Giving `name` the value in the frame `u`, and changing nothing else there, is observed from
the scopes that meet `u`: a frame that does not bind the name lets its parent be seen. -/
theorem observed_modify (ordered : h.Ordered) (change : Frame α ρ → Frame α ρ)
    (parents : ∀ frame, (change frame).parent = frame.parent)
    (own : ∀ frame, h.frame? u = some frame → (change frame).lookup name = some value)
    (others : ∀ frame other, other ≠ name → (change frame).lookup other = frame.lookup other) :
    h.Observed (h.modify u change) name value (h.Meets name u) := by
  intro t live other
  have ordered' := ordered.modify u parents
  refine chain_induction ordered (motive := fun t =>
    (other = name ∧ h.Meets name u t → (h.modify u change).lookup t other = some value) ∧
      (¬(other = name ∧ h.Meets name u t) → (h.modify u change).lookup t other = h.lookup t other))
    ?_ ?_ t live
  · intro t frame found top
    by_cases here : u = t
    · subst here
      have found' : (h.modify u change).frame? u = some (change frame) := by simp [frame?_modify, found]
      rw [lookup_root found' ((parents frame).trans top), lookup_root found top]
      refine ⟨fun reached => reached.1 ▸ own frame found, fun unreached => others frame other ?_⟩
      exact fun same => unreached ⟨same, .here⟩
    · have found' : (h.modify u change).frame? t = some frame := by simp [frame?_modify, here, found]
      rw [lookup_root found' top, lookup_root found top]
      exact ⟨fun reached => absurd reached.2 (not_meets_root found top (Ne.symm here)), fun _ => rfl⟩
  · intro t frame parent found above ih
    by_cases here : u = t
    · subst here
      have found' : (h.modify u change).frame? u = some (change frame) := by simp [frame?_modify, found]
      rw [lookup_child ordered' found' ((parents frame).trans above), lookup_child ordered found above]
      constructor
      · rintro ⟨rfl, _⟩
        rw [own frame found]
        rfl
      · intro unreached
        have differ : other ≠ name := fun same => unreached ⟨same, .here⟩
        rw [others frame other differ, ih.2 fun reached => differ reached.1]
    · have found' : (h.modify u change).frame? t = some frame := by simp [frame?_modify, here, found]
      rw [lookup_child ordered' found' above, lookup_child ordered found above,
        meets_child found above (Ne.symm here)]
      constructor
      · rintro ⟨rfl, unbound, further⟩
        rw [unbound, Option.none_or, ih.1 ⟨rfl, further⟩]
      · intro unreached
        cases held : frame.lookup other with
        | some old => rfl
        | none =>
          rw [Option.none_or, Option.none_or]
          refine ih.2 ?_
          rintro ⟨rfl, further⟩
          exact unreached ⟨rfl, held, further⟩

theorem observed_define (ordered : h.Ordered) (done : (h.define s name value).1 = true) :
    h.Observed (h.define s name value).2 name value (h.Meets name s) := by
  unfold define at done ⊢
  split at done
  · cases done
  · next unbound =>
    rw [if_neg unbound]
    exact observed_modify ordered (·.bind name value) (fun _ => rfl)
      (fun frame _ => frame.lookup_bind_self name value) fun frame _ => frame.lookup_bind_of_ne value

/-- The frame that is assigned to binds the name, so to meet it is to have it as the nearest. -/
theorem observed_assign (ordered : h.Ordered) (live : s < h.next) (done : (h.assign s name value).1 = true) :
    h.Observed (h.assign s name value).2 name value
      fun t => ∃ u, h.Nearest name u s ∧ h.Nearest name u t := by
  unfold assign at done ⊢
  cases binder : h.binder? s name with
  | none =>
    rw [binder] at done
    cases done
  | some u =>
    have nearest := (binder?_eq_some_iff ordered live).1 binder
    have own : ∀ frame, h.frame? u = some frame → (frame.rebind name value).lookup name = some value := by
      intro frame found
      have bound : frame.binds name = true := by simpa [bindsIn, found] using nearest.binds
      exact frame.lookup_rebind_self value bound
    have same : h.Meets name u = fun t => ∃ u, h.Nearest name u s ∧ h.Nearest name u t := by
      funext t
      apply propext
      constructor
      · intro meets
        exact ⟨u, nearest, meets, nearest.binds⟩
      · rintro ⟨u', nearest', shared⟩
        cases binder.symm.trans ((binder?_eq_some_iff ordered live).2 nearest')
        exact shared.meets
    rw [← same]
    exact observed_modify ordered (·.rebind name value) (fun _ => rfl) own
      fun frame _ => frame.lookup_rebind_of_ne value

theorem assign_eq_true_iff (ordered : h.Ordered) (live : s < h.next) :
    (h.assign s name value).1 = true ↔ (h.lookup s name).isSome = true := by
  have unseen : h.binder? s name = none ↔ h.lookup s name = none := binder?_eq_none_iff ordered live
  unfold assign
  cases binder : h.binder? s name with
  | none => simp [unseen.1 binder]
  | some t =>
    have seen : h.lookup s name ≠ none := fun none => by simp [unseen.2 none] at binder
    simpa using Option.isSome_iff_ne_none.2 seen

theorem assign_unchanged (refused : (h.assign s name value).1 = false) : (h.assign s name value).2 = h := by
  unfold assign at refused ⊢
  cases binder : h.binder? s name with
  | none => rfl
  | some t =>
    rw [binder] at refused
    cases refused

theorem define_eq_false_iff : (h.define s name value).1 = false ↔ h.bindsIn s name = true := by
  unfold define
  split <;> simp [*]

theorem define_unchanged (refused : (h.define s name value).1 = false) : (h.define s name value).2 = h := by
  rw [define, if_pos (define_eq_false_iff.1 refused)]

end Heap

namespace Machine

/-- An assignment succeeds where the name is seen, and the scopes that share its nearest frame
see it. A definition succeeds where the frame itself does not bind the name, and it is seen
from the scopes that come to the frame first. Whatever is refused changes nothing. -/
theorem changes_observed {m : Machine} (reachable : m.Reachable) {s : Scope} (live : s < m.heap.next)
    (name : String) (value : Value) :
    ((m.heap.assign s name value).1 = true ↔ (m.heap.lookup s name).isSome = true) ∧
    ((m.heap.assign s name value).1 = false → (m.heap.assign s name value).2 = m.heap) ∧
    ((m.heap.assign s name value).1 = true → m.heap.Observed (m.heap.assign s name value).2 name value
      fun t => ∃ u, m.heap.Nearest name u s ∧ m.heap.Nearest name u t) ∧
    ((m.heap.define s name value).1 = false ↔ m.heap.bindsIn s name = true) ∧
    ((m.heap.define s name value).1 = false → (m.heap.define s name value).2 = m.heap) ∧
    ((m.heap.define s name value).1 = true →
      m.heap.Observed (m.heap.define s name value).2 name value (m.heap.Meets name s)) := by
  have ordered := reachable.wellScoped.ordered
  exact ⟨Heap.assign_eq_true_iff ordered live, Heap.assign_unchanged, Heap.observed_assign ordered live,
    Heap.define_eq_false_iff, Heap.define_unchanged, Heap.observed_define ordered⟩

/-- Frames 2 and 3 lie in frame 1, which binds `x`, and frame 3 binds it too: an assignment
from frame 2 is seen from frame 1 and not from frame 3, a definition in frame 2 from neither. -/
theorem changes_observed_shadowed :
    let h := (((start 10 none).heap.add (some globalScope) none).define 1 "x" (.bool true)).2
    let h' := (((h.add (some 1) none).add (some 1) none).define 3 "x" (.bool false)).2
    let m : Machine := { start 10 none with heap := h' }
    m.Reachable ∧ (h'.assign 2 "x" .unit).2.lookup 1 "x" = some .unit ∧
      (h'.assign 2 "x" .unit).2.lookup 3 "x" = some (.bool false) ∧
      (h'.define 2 "x" .unit).2.lookup 2 "x" = some .unit ∧
      (h'.define 2 "x" .unit).2.lookup 1 "x" = some (.bool true) := by
  intro h h' m
  have opened : Reachable { start 10 none with heap := h } :=
    .define 1 "x" (.bool true) (.frame (some globalScope) none (.start 10 none) (by rintro _ ⟨⟩; decide)) trivial
  have second : Reachable { start 10 none with heap := h.add (some 1) none } :=
    .frame (some 1) none opened (by rintro _ ⟨⟩; decide)
  have third : Reachable { start 10 none with heap := (h.add (some 1) none).add (some 1) none } :=
    .frame (some 1) none second (by rintro _ ⟨⟩; decide)
  have reachable : m.Reachable := .define 3 "x" (.bool false) third trivial
  obtain ⟨_, _, assigned, _, _, defined⟩ := changes_observed reachable (s := 2) (by decide) "x" .unit
  have nearest : h'.Nearest "x" 1 2 := ⟨.outward rfl rfl .here, rfl⟩
  have shared : ∃ u, h'.Nearest "x" u 2 ∧ h'.Nearest "x" u 1 := ⟨1, nearest, .here, rfl⟩
  have apart : ¬∃ u, h'.Nearest "x" u 2 ∧ h'.Nearest "x" u 3 := by
    rintro ⟨u, fromSecond, fromThird⟩
    have ordered := reachable.wellScoped.ordered
    have found := (Heap.binder?_eq_some_iff ordered (by decide)).2 fromSecond
    have found' := (Heap.binder?_eq_some_iff ordered (by decide)).2 fromThird
    cases found
    cases found'
  have outside : ¬h'.Meets "x" 2 1 := by
    intro meets
    cases meets with
    | outward _ free => cases free
  exact ⟨reachable, (assigned rfl 1 (by decide) "x").1 ⟨rfl, shared⟩,
    (assigned rfl 3 (by decide) "x").2 fun reached => apart reached.2,
    (defined rfl 2 (by decide) "x").1 ⟨rfl, .here⟩,
    (defined rfl 1 (by decide) "x").2 fun reached => outside reached.2⟩

end Machine

end CheckedLisp
