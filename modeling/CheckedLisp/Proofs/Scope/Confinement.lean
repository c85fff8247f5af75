import CheckedLisp.Proofs.Scope.View
import Mathlib.Data.List.Chain

/-! Frames are only ever added, and names are only ever added to frames. `Confined s` says that of
the frames that were there before, only the frame of `s` has got new names. -/
namespace CheckedLisp

namespace Frame

variable {α ρ : Type}

@[simp] theorem names_rebind (f : Frame α ρ) (name : String) (value : α) :
    (f.rebind name value).names = f.names := by
  obtain ⟨parent, function, bindings⟩ := f
  simp only [rebind, names]
  induction bindings with
  | nil => rfl
  | cons binding rest ih =>
    simp only [replace]
    split
    · rfl
    · rw [List.map_cons, ih, List.map_cons]

theorem mem_names_iff (f : Frame α ρ) (name : String) :
    name ∈ f.names ↔ (f.lookup name).isSome = true := by
  simp only [names, lookup]
  induction f.bindings with
  | nil => simp
  | cons binding rest ih =>
    rw [List.map_cons, List.mem_cons, List.lookup_cons, ih]
    by_cases here : name = binding.1
    · simp [here]
    · simp [here, beq_eq_false_iff_ne.2 here]

/-- A frame stays where it is and what it is, and loses no name. -/
structure Kept (f f' : Frame α ρ) : Prop where
  parent : f'.parent = f.parent
  function : f'.function = f.function
  names : f.names <:+ f'.names

theorem Kept.refl (f : Frame α ρ) : f.Kept f := ⟨rfl, rfl, List.suffix_rfl⟩

theorem Kept.trans {f₁ f₂ f₃ : Frame α ρ} (first : f₁.Kept f₂) (second : f₂.Kept f₃) : f₁.Kept f₃ :=
  ⟨second.parent.trans first.parent, second.function.trans first.function, first.names.trans second.names⟩

end Frame

namespace Heap

variable {α ρ : Type}

/-- What may happen to the frames while names are defined in `s` alone. New frames are
opened inside older ones, and may have any names. -/
structure Confined (s : Scope) (h h' : Heap α ρ) : Prop where
  next : h.next ≤ h'.next
  kept : ∀ t frame, h.frame? t = some frame →
    ∃ frame', h'.frame? t = some frame' ∧ frame.Kept frame' ∧ (t ≠ s → frame'.names = frame.names)
  fresh : ∀ t frame, h.next ≤ t → h'.frame? t = some frame → ∃ parent < t, frame.parent = some parent

section

variable {h h₁ h₂ h₃ : Heap α ρ} {s t : Scope}

theorem Confined.refl (s : Scope) (h : Heap α ρ) : h.Confined s h := by
  refine ⟨Nat.le_refl _, fun t frame found => ⟨frame, found, .refl frame, fun _ => rfl⟩, ?_⟩
  intro t frame new found
  exact absurd (lt_next_of_frame? found) (Nat.not_lt.2 new)

/-- What follows may define names in `s` again, or in a frame that is new by now. -/
theorem Confined.trans (first : h₁.Confined s h₂) (second : h₂.Confined t h₃)
    (inside : t = s ∨ h₁.next ≤ t) : h₁.Confined s h₃ := by
  refine ⟨Nat.le_trans first.next second.next, ?_, ?_⟩
  · intro u frame found
    obtain ⟨frame', found', kept, same⟩ := first.kept u frame found
    obtain ⟨frame'', found'', kept', same'⟩ := second.kept u frame' found'
    refine ⟨frame'', found'', kept.trans kept', ?_⟩
    intro other
    have elsewhere : u ≠ t := by
      rintro rfl
      rcases inside with here | new
      · exact other here
      · exact absurd (lt_next_of_frame? found) (Nat.not_lt.2 new)
    rw [same' elsewhere, same other]
  · intro u frame new found
    by_cases middle : u < h₂.next
    · obtain ⟨frame', found'⟩ := exists_frame? middle
      obtain ⟨parent, older, above⟩ := first.fresh u frame' new found'
      obtain ⟨frame'', found'', kept, _⟩ := second.kept u frame' found'
      obtain rfl : frame'' = frame := Option.some.inj (found''.symm.trans found)
      exact ⟨parent, older, kept.parent.trans above⟩
    · exact second.fresh u frame (Nat.not_lt.1 middle) found

theorem Confined.ordered (confined : h₁.Confined s h₂) (ordered : h₁.Ordered) : h₂.Ordered := by
  intro t frame parent found above
  by_cases old : t < h₁.next
  · obtain ⟨frame₁, found₁⟩ := exists_frame? old
    obtain ⟨frame₂, found₂, kept, _⟩ := confined.kept t frame₁ found₁
    obtain rfl : frame₂ = frame := Option.some.inj (found₂.symm.trans found)
    exact ordered t frame₁ parent found₁ (kept.parent.symm.trans above)
  · obtain ⟨parent', older, above'⟩ := confined.fresh t frame (Nat.not_lt.1 old) found
    obtain rfl : parent' = parent := Option.some.inj (above'.symm.trans above)
    exact older

theorem confined_add (s : Scope) (live : t < h.next) (function : Option ρ) :
    h.Confined s (h.add (some t) function) := by
  refine ⟨by rw [next_add]; exact Nat.le_succ _, ?_, ?_⟩
  · intro u frame found
    have kept := frame?_add_of_lt h (some t) function (lt_next_of_frame? found)
    exact ⟨frame, kept.trans found, .refl frame, fun _ => rfl⟩
  · intro u frame new found
    rcases frame?_add_cases found with old | ⟨rfl, rfl⟩
    · exact absurd (lt_next_of_frame? old) (Nat.not_lt.2 new)
    · exact ⟨t, live, rfl⟩

theorem confined_modify {change : Frame α ρ → Frame α ρ}
    (kept : ∀ frame : Frame α ρ, frame.Kept (change frame))
    (same : t ≠ s → ∀ frame, (change frame).names = frame.names) : h.Confined s (h.modify t change) := by
  refine ⟨by simp, ?_, ?_⟩
  · intro u frame found
    by_cases here : t = u
    · subst here
      exact ⟨change frame, by simp [frame?_modify, found], kept frame, fun other => same other frame⟩
    · exact ⟨frame, by simp [frame?_modify, here, found], .refl frame, fun _ => rfl⟩
  · intro u frame new found
    have live := lt_next_of_frame? found
    rw [next_modify] at live
    exact absurd live (Nat.not_lt.2 new)

theorem confined_define (h : Heap α ρ) (s : Scope) (name : String) (value : α) :
    h.Confined s (h.define s name value).2 := by
  unfold define
  split
  · exact .refl s h
  · refine confined_modify ?_ (absurd rfl)
    intro frame
    exact ⟨rfl, rfl, List.suffix_cons _ _⟩

/-- An assignment changes a value, and no frame's names. -/
theorem confined_assign (h : Heap α ρ) (s t : Scope) (name : String) (value : α) :
    h.Confined s (h.assign t name value).2 := by
  unfold assign
  split
  · exact .refl s h
  · refine confined_modify ?_ (fun _ frame => Frame.names_rebind frame name value)
    intro frame
    exact ⟨rfl, rfl, (Frame.names_rebind frame name value).symm ▸ List.suffix_rfl⟩

end

theorem inFunction_root {h : Heap α ρ} {s : Scope} {frame : Frame α ρ} (found : h.frame? s = some frame)
    (top : frame.parent = none) : h.inFunction s = frame.function.isSome := by
  cases owner : frame.function <;>
    simp [inFunction, function?, chain_root found top, found, owner]

theorem inFunction_child {h : Heap α ρ} (ordered : h.Ordered) {s parent : Scope} {frame : Frame α ρ}
    (found : h.frame? s = some frame) (above : frame.parent = some parent) :
    h.inFunction s = (frame.function.isSome || h.inFunction parent) := by
  cases owner : frame.function <;>
    simp [inFunction, function?, chain_child ordered found above, found, owner]

/-- Frames stay inside the functions that they were opened in. -/
theorem Confined.inFunction {h h' : Heap α ρ} {s t : Scope} (confined : h.Confined s h')
    (ordered : h.Ordered) (live : t < h.next) : h'.inFunction t = h.inFunction t := by
  apply chain_induction ordered (motive := fun t => h'.inFunction t = h.inFunction t) _ _ t live
  · intro t frame found top
    obtain ⟨frame', found', kept, _⟩ := confined.kept t frame found
    rw [inFunction_root found top, inFunction_root found' (kept.parent.trans top), kept.function]
  · intro t frame parent found above same
    obtain ⟨frame', found', kept, _⟩ := confined.kept t frame found
    rw [inFunction_child ordered found above, kept.function.symm,
      inFunction_child (confined.ordered ordered) found' (kept.parent.trans above), same]

/-- A frame that is no function's own lies in a function when its parent does. -/
theorem inFunction_add_next {h : Heap α ρ} (ordered : h.Ordered) {s : Scope} (live : s < h.next) :
    (h.add (some s) none).inFunction h.next = h.inFunction s := by
  have opened := inFunction_child (ordered.add live none) (frame?_add_next h (some s) none) rfl
  have same := (confined_add s live none).inFunction ordered live
  simpa [same] using opened

theorem Confined.keeps {h h' : Heap α ρ} {s : Scope} (confined : h.Confined s h') : h.Keeps h' := by
  refine ⟨confined.next, ?_⟩
  intro t frame found
  obtain ⟨frame', found', kept, _⟩ := confined.kept t frame found
  exact ⟨frame', found', kept.parent⟩

theorem bindsIn_iff (h : Heap α ρ) (s : Scope) (name : String) :
    h.bindsIn s name = true ↔ ∃ frame, h.frame? s = some frame ∧ name ∈ frame.names := by
  simp only [bindsIn, Option.any_eq_true, Frame.mem_names_iff, Frame.binds]

/-- A frame that `s` leads to binds `name`. -/
def Sees (h : Heap α ρ) (s : Scope) (name : String) : Prop :=
  ∃ t ∈ h.chain s, ∃ frame, h.frame? t = some frame ∧ name ∈ frame.names

theorem sees_root {h : Heap α ρ} {s : Scope} {frame : Frame α ρ} (found : h.frame? s = some frame)
    (top : frame.parent = none) (name : String) : h.Sees s name ↔ name ∈ frame.names := by
  simp [Sees, chain_root found top, found]

theorem sees_child {h : Heap α ρ} (ordered : h.Ordered) {s parent : Scope} {frame : Frame α ρ}
    (found : h.frame? s = some frame) (above : frame.parent = some parent) (name : String) :
    h.Sees s name ↔ name ∈ frame.names ∨ h.Sees parent name := by
  simp [Sees, chain_child ordered found above, found]

/-- A name is found where it is seen. -/
theorem sees_iff_lookup (h : Heap α ρ) (s : Scope) (name : String) :
    h.Sees s name ↔ (h.lookup s name).isSome = true := by
  simp only [Sees, lookup, List.findSome?_isSome_iff, Option.isSome_bind, Option.any_eq_true,
    ← Frame.mem_names_iff]

theorem sees_add_next {h : Heap α ρ} (ordered : h.Ordered) {s : Scope} (live : s < h.next)
    (function : Option ρ) (name : String) :
    (h.add (some s) function).Sees h.next name ↔ h.Sees s name := by
  have same : (h.add (some s) function).Sees s name ↔ h.Sees s name := by
    simp only [sees_iff_lookup, lookup_eq_view, view_add_of_lt ordered live live function]
  rw [sees_child (ordered.add live function) (frame?_add_next h (some s) function) rfl, same]
  simp [Frame.names]

/-- What is seen from a frame stays seen. -/
theorem Confined.sees {h h' : Heap α ρ} {s t : Scope} (confined : h.Confined s h') (ordered : h.Ordered)
    (live : t < h.next) {name : String} (seen : h.Sees t name) : h'.Sees t name := by
  obtain ⟨u, inside, frame, found, bound⟩ := seen
  obtain ⟨frame', found', kept, _⟩ := confined.kept u frame found
  rw [← confined.keeps.chain ordered (confined.ordered ordered) live] at inside
  exact ⟨u, inside, frame', found', kept.names.subset bound⟩

/-- The chain of `s` leads from `s`, parent by parent, to a frame that has none. -/
structure Grounded (h : Heap α ρ) (s : Scope) : Prop where
  head : (h.chain s).head? = some s
  climbs : (h.chain s).IsChain fun t parent => h.parent? t = some parent
  last : ∃ root ∈ (h.chain s).getLast?, h.parent? root = none

theorem Ordered.grounded {h : Heap α ρ} (ordered : h.Ordered) {s : Scope} (live : s < h.next) :
    h.Grounded s := by
  refine chain_induction ordered ?_ ?_ s live
  · intro s frame found top
    have chain := chain_root found top
    refine ⟨by rw [chain]; rfl, by rw [chain]; exact .singleton s, s, by rw [chain]; rfl, ?_⟩
    simp [parent?, found, top]
  · intro s frame parent found above grounded
    obtain ⟨root, last, top⟩ := grounded.last
    have chain := chain_child ordered found above
    have climbs := grounded.climbs
    obtain ⟨rest, start⟩ := List.head?_eq_some_iff.1 grounded.head
    rw [start] at chain last climbs
    refine ⟨by rw [chain]; rfl, ?_, root, ?_, top⟩
    · rw [chain]
      exact .cons_cons (by simp [parent?, found, above]) climbs
    · rw [chain]
      exact last

end Heap

end CheckedLisp
