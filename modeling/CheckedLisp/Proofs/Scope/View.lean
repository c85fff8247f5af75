import CheckedLisp.Scope.Heap

/-! The view of a scope is the bindings along its chain, frame by frame. Looking a name up, binding
it and changing it are described on views alone, so that a proof about programs need not follow
frame numbers. `Ordered` is what makes a chain end: every parent is older. -/
namespace CheckedLisp

namespace Heap

variable {α ρ : Type}

def Ordered (h : Heap α ρ) : Prop :=
  ∀ s frame parent, h.frame? s = some frame → frame.parent = some parent → parent < s

/-- The later heap has all frames of the earlier one, with the parents they had. -/
structure Keeps (h h' : Heap α ρ) : Prop where
  next : h.next ≤ h'.next
  parent : ∀ s frame, h.frame? s = some frame →
    ∃ frame', h'.frame? s = some frame' ∧ frame'.parent = frame.parent

theorem Keeps.refl (h : Heap α ρ) : h.Keeps h := ⟨Nat.le_refl _, fun _ frame found => ⟨frame, found, rfl⟩⟩

theorem Keeps.trans {h₁ h₂ h₃ : Heap α ρ} (first : h₁.Keeps h₂) (second : h₂.Keeps h₃) :
    h₁.Keeps h₃ := by
  refine ⟨Nat.le_trans first.next second.next, ?_⟩
  intro s frame found
  obtain ⟨middle, foundMiddle, sameMiddle⟩ := first.parent s frame found
  obtain ⟨last, foundLast, sameLast⟩ := second.parent s middle foundMiddle
  exact ⟨last, foundLast, sameLast.trans sameMiddle⟩

theorem lt_next_of_frame? {h : Heap α ρ} {s : Scope} {frame : Frame α ρ}
    (found : h.frame? s = some frame) : s < h.next :=
  (Array.getElem?_eq_some_iff.1 found).1

theorem exists_frame? {h : Heap α ρ} {s : Scope} (old : s < h.next) :
    ∃ frame, h.frame? s = some frame :=
  ⟨h.frames[s], Array.getElem?_eq_getElem old⟩

theorem next_add (h : Heap α ρ) (parent : Option Scope) (function : Option ρ) :
    (h.add parent function).next = h.next + 1 := by
  simp [add, next]

theorem lt_next_add (h : Heap α ρ) (parent : Option Scope) (function : Option ρ) :
    h.next < (h.add parent function).next := by
  rw [next_add]
  exact Nat.lt_succ_self _

theorem parent?_add_next (h : Heap α ρ) (parent : Option Scope) (function : Option ρ) :
    (h.add parent function).parent? h.next = parent := by
  rw [parent?, frame?_add_next]
  rfl

theorem frame?_add_cases {h : Heap α ρ} {parent : Option Scope} {function : Option ρ} {s : Scope}
    {frame : Frame α ρ} (found : (h.add parent function).frame? s = some frame) :
    h.frame? s = some frame ∨ s = h.next ∧ frame = ⟨parent, function, []⟩ := by
  by_cases old : s < h.next
  · exact .inl ((frame?_add_of_lt h parent function old) ▸ found)
  · have bound := lt_next_of_frame? found
    rw [next_add] at bound
    have last : s = h.next := Nat.le_antisymm (Nat.le_of_lt_succ bound) (Nat.le_of_not_lt old)
    subst last
    exact .inr ⟨rfl, by simpa using found.symm⟩

theorem keeps_add (h : Heap α ρ) (parent : Option Scope) (function : Option ρ) :
    h.Keeps (h.add parent function) := by
  refine ⟨next_add h parent function ▸ Nat.le_succ _, ?_⟩
  intro s frame found
  exact ⟨frame, by rw [frame?_add_of_lt h parent function (lt_next_of_frame? found), found], rfl⟩

theorem Ordered.add {h : Heap α ρ} (ordered : h.Ordered) {parent : Scope} (old : parent < h.next)
    (function : Option ρ) : (h.add (some parent) function).Ordered := by
  intro s frame above found isParent
  rcases frame?_add_cases found with earlier | ⟨rfl, rfl⟩
  · exact ordered s frame above earlier isParent
  · cases isParent
    exact old

theorem keeps_modify (h : Heap α ρ) (s : Scope) {change : Frame α ρ → Frame α ρ}
    (same : ∀ frame, (change frame).parent = frame.parent) : h.Keeps (h.modify s change) := by
  refine ⟨by simp, ?_⟩
  intro t frame found
  by_cases here : s = t
  · exact ⟨change frame, by simp [frame?_modify, here, found], same frame⟩
  · exact ⟨frame, by simp [frame?_modify, here, found], rfl⟩

theorem Ordered.modify {h : Heap α ρ} (ordered : h.Ordered) (s : Scope)
    {change : Frame α ρ → Frame α ρ} (same : ∀ frame, (change frame).parent = frame.parent) :
    (h.modify s change).Ordered := by
  intro t frame above found isParent
  rw [frame?_modify] at found
  split at found
  · obtain ⟨old, foundOld, rfl⟩ := Option.map_eq_some_iff.1 found
    exact ordered t old above foundOld (same old ▸ isParent)
  · exact ordered t frame above found isParent

/-- A chain that fits into two bounds is the same under both. -/
theorem chainUpTo_congr {h : Heap α ρ} (ordered : h.Ordered) {first second : Nat} {s : Scope}
    (inFirst : s < first) (inSecond : s < second) :
    h.chainUpTo first s = h.chainUpTo second s := by
  induction first generalizing second s with
  | zero => exact absurd inFirst (Nat.not_lt_zero s)
  | succ first ih =>
    obtain ⟨second, rfl⟩ := Nat.exists_eq_add_one_of_ne_zero (Nat.ne_zero_of_lt inSecond)
    cases found : h.frame? s with
    | none => simp [chainUpTo, found]
    | some frame =>
      cases above : frame.parent with
      | none => simp [chainUpTo, found, above]
      | some parent =>
        have older := ordered s frame parent found above
        have rest := ih (Nat.lt_of_lt_of_le older (Nat.le_of_lt_succ inFirst))
          (Nat.lt_of_lt_of_le older (Nat.le_of_lt_succ inSecond))
        simp [chainUpTo, found, above, rest]

theorem chain_root {h : Heap α ρ} {s : Scope} {frame : Frame α ρ}
    (found : h.frame? s = some frame) (top : frame.parent = none) : h.chain s = [s] := by
  simp [chain, chainUpTo, found, top]

theorem chain_child {h : Heap α ρ} (ordered : h.Ordered) {s parent : Scope} {frame : Frame α ρ}
    (found : h.frame? s = some frame) (above : frame.parent = some parent) :
    h.chain s = s :: h.chain parent := by
  have older := ordered s frame parent found above
  simp [chain, chainUpTo, found, above, chainUpTo_congr ordered older (Nat.lt_succ_self parent)]

/-- The cases of a chain: what holds at the top and passes from a parent to its child
holds of every frame. -/
theorem chain_induction {h : Heap α ρ} (ordered : h.Ordered) {motive : Scope → Prop}
    (root : ∀ s frame, h.frame? s = some frame → frame.parent = none → motive s)
    (child : ∀ s frame parent, h.frame? s = some frame → frame.parent = some parent →
      motive parent → motive s)
    (s : Scope) (live : s < h.next) : motive s := by
  induction s using Nat.strongRecOn with
  | ind s ih =>
    obtain ⟨frame, found⟩ := exists_frame? live
    cases above : frame.parent with
    | none => exact root s frame found above
    | some parent =>
      have older := ordered s frame parent found above
      exact child s frame parent found above (ih parent older (Nat.lt_trans older live))

theorem lt_next_of_mem_chain {h : Heap α ρ} (ordered : h.Ordered) {s t : Scope} (live : s < h.next)
    (inside : t ∈ h.chain s) : t < h.next := by
  apply chain_induction ordered (motive := fun s => t ∈ h.chain s → t < h.next) _ _ s live inside
  · intro s frame found top inside
    rw [chain_root found top, List.mem_singleton] at inside
    exact inside ▸ lt_next_of_frame? found
  · intro s frame parent found above ih inside
    rw [chain_child ordered found above] at inside
    rcases List.mem_cons.1 inside with rfl | later
    · exact lt_next_of_frame? found
    · exact ih later

/-- Frames that keep their parents keep their chains. -/
theorem Keeps.chain {h h' : Heap α ρ} (keeps : h.Keeps h') (ordered : h.Ordered) (ordered' : h'.Ordered)
    {s : Scope} (live : s < h.next) : h'.chain s = h.chain s := by
  apply chain_induction ordered (motive := fun s => h'.chain s = h.chain s) _ _ s live
  · intro s frame found top
    obtain ⟨frame', found', same⟩ := keeps.parent s frame found
    rw [chain_root found top, chain_root found' (same.trans top)]
  · intro s frame parent found above ih
    obtain ⟨frame', found', same⟩ := keeps.parent s frame found
    rw [chain_child ordered found above, chain_child ordered' found' (same.trans above), ih]

/-- The bindings that `s` sees, one list for each frame of its chain. -/
def view (h : Heap α ρ) (s : Scope) : List (List (String × α)) :=
  (h.chain s).map fun t => ((h.frame? t).map (·.bindings)).getD []

theorem view_root {h : Heap α ρ} {s : Scope} {frame : Frame α ρ}
    (found : h.frame? s = some frame) (top : frame.parent = none) : h.view s = [frame.bindings] := by
  simp [view, chain_root found top, found]

theorem view_child {h : Heap α ρ} (ordered : h.Ordered) {s parent : Scope} {frame : Frame α ρ}
    (found : h.frame? s = some frame) (above : frame.parent = some parent) :
    h.view s = frame.bindings :: h.view parent := by
  simp [view, chain_child ordered found above, found]

theorem lookup_eq_view (h : Heap α ρ) (s : Scope) (name : String) :
    h.lookup s name = (h.view s).findSome? (·.lookup name) := by
  rw [lookup, view, List.findSome?_map]
  congr 1
  funext t
  cases found : h.frame? t with
  | none => simp [found]
  | some frame => simp [found, Frame.lookup]

theorem mem_of_lookup {h : Heap α ρ} {s : Scope} {name : String} {value : α}
    (found : h.lookup s name = some value) :
    ∃ t frame, h.frame? t = some frame ∧ (name, value) ∈ frame.bindings := by
  obtain ⟨t, _, bound⟩ := List.exists_of_findSome?_eq_some found
  obtain ⟨frame, foundFrame, bound⟩ := Option.bind_eq_some_iff.1 bound
  obtain ⟨before, after, split, _⟩ := List.lookup_eq_some_iff.1 bound
  exact ⟨t, frame, foundFrame, by simp [split]⟩

/-- A view depends only on the frames up to its scope. -/
theorem view_congr {h h' : Heap α ρ} (ordered : h.Ordered) {s : Scope} (live : s < h.next)
    (same : ∀ t, t ≤ s → h'.frame? t = h.frame? t) (ordered' : h'.Ordered) :
    h'.view s = h.view s := by
  refine chain_induction ordered (motive := fun s =>
    (∀ t, t ≤ s → h'.frame? t = h.frame? t) → h'.view s = h.view s) ?_ ?_ s live same
  · intro s frame found top same
    rw [view_root found top, view_root ((same s (Nat.le_refl s)).trans found) top]
  · intro s frame parent found above ih same
    have older := ordered s frame parent found above
    rw [view_child ordered found above,
      view_child ordered' ((same s (Nat.le_refl s)).trans found) above,
      ih fun t below => same t (Nat.le_trans below (Nat.le_of_lt older))]

theorem view_add_next {h : Heap α ρ} (ordered : h.Ordered) {s : Scope} (live : s < h.next)
    (function : Option ρ) : (h.add (some s) function).view h.next = [] :: h.view s := by
  have ordered' := ordered.add live function
  rw [view_child ordered' (frame?_add_next h (some s) function) rfl]
  refine congrArg _ (view_congr ordered live ?_ ordered')
  intro t below
  exact frame?_add_of_lt h (some s) function (Nat.lt_of_le_of_lt below live)

theorem view_add_of_lt {h : Heap α ρ} (ordered : h.Ordered) {s parent : Scope} (live : s < h.next)
    (old : parent < h.next) (function : Option ρ) :
    (h.add (some parent) function).view s = h.view s := by
  refine view_congr ordered live ?_ (ordered.add old function)
  intro t below
  exact frame?_add_of_lt h (some parent) function (Nat.lt_of_le_of_lt below live)

/-- A frame that was opened inside `s` still stands in front of what `s` sees. -/
theorem Keeps.view_child {h h' : Heap α ρ} (keeps : h.Keeps h') (ordered' : h'.Ordered)
    {s parent : Scope} {frame : Frame α ρ} (found : h.frame? s = some frame)
    (above : frame.parent = some parent) :
    ∃ bindings, h'.view s = bindings :: h'.view parent := by
  obtain ⟨frame', found', same⟩ := keeps.parent s frame found
  exact ⟨frame'.bindings, Heap.view_child ordered' found' (same.trans above)⟩

theorem view_ne_nil {h : Heap α ρ} (ordered : h.Ordered) {s : Scope} {frame : Frame α ρ}
    (found : h.frame? s = some frame) : ∃ rest, h.view s = frame.bindings :: rest := by
  cases above : frame.parent with
  | none => exact ⟨[], view_root found above⟩
  | some parent => exact ⟨h.view parent, view_child ordered found above⟩

/-- Changing younger frames does not change a view. -/
theorem view_modify_of_lt {h : Heap α ρ} (ordered : h.Ordered) {s t : Scope} (live : s < h.next)
    (younger : s < t) {change : Frame α ρ → Frame α ρ}
    (same : ∀ frame, (change frame).parent = frame.parent) : (h.modify t change).view s = h.view s := by
  refine view_congr ordered live ?_ (ordered.modify t same)
  intro u below
  have other : t ≠ u := Nat.ne_of_gt (Nat.lt_of_le_of_lt below younger)
  simp [frame?_modify, other]

theorem view_modify_self {h : Heap α ρ} (ordered : h.Ordered) {s : Scope} {frame : Frame α ρ}
    (found : h.frame? s = some frame) {change : Frame α ρ → Frame α ρ}
    (same : ∀ frame, (change frame).parent = frame.parent) :
    (h.modify s change).view s = (change frame).bindings :: (h.view s).tail := by
  have changed : (h.modify s change).frame? s = some (change frame) := by simp [frame?_modify, found]
  cases above : frame.parent with
  | none => rw [view_root found above, view_root changed ((same frame).trans above), List.tail_cons]
  | some parent =>
    have older := ordered s frame parent found above
    have live := Nat.lt_trans older (lt_next_of_frame? found)
    rw [view_child ordered found above, List.tail_cons,
      view_child (ordered.modify s same) changed ((same frame).trans above),
      view_modify_of_lt ordered live older same]

/-- Changes a name in the first frame that binds it. -/
def rebindView (name : String) (value : α) : List (List (String × α)) → List (List (String × α))
  | [] => []
  | bindings :: rest =>
    if (bindings.lookup name).isSome then Frame.replace name value bindings :: rest
    else bindings :: rebindView name value rest

theorem bindsIn_of_frame? {h : Heap α ρ} {s : Scope} {frame : Frame α ρ}
    (found : h.frame? s = some frame) (name : String) :
    h.bindsIn s name = (frame.bindings.lookup name).isSome := by
  simp [bindsIn, found, Frame.binds, Frame.lookup]

theorem binder?_root {h : Heap α ρ} {s : Scope} {frame : Frame α ρ} (found : h.frame? s = some frame)
    (top : frame.parent = none) (name : String) :
    h.binder? s name = if (frame.bindings.lookup name).isSome then some s else none := by
  simp only [binder?, chain_root found top, List.find?_singleton, bindsIn_of_frame? found]

theorem binder?_child {h : Heap α ρ} (ordered : h.Ordered) {s parent : Scope} {frame : Frame α ρ}
    (found : h.frame? s = some frame) (above : frame.parent = some parent) (name : String) :
    h.binder? s name =
      if (frame.bindings.lookup name).isSome then some s else h.binder? parent name := by
  simp only [binder?, chain_child ordered found above, List.find?_cons, bindsIn_of_frame? found]
  cases (frame.bindings.lookup name).isSome <;> rfl

theorem binder?_le {h : Heap α ρ} (ordered : h.Ordered) {s t : Scope} {name : String}
    (live : s < h.next) (binder : h.binder? s name = some t) : t ≤ s := by
  refine chain_induction ordered (motive := fun s => h.binder? s name = some t → t ≤ s) ?_ ?_ s live
    binder
  · intro s frame found top binder
    rw [binder?_root found top] at binder
    split at binder
    · exact Nat.le_of_eq (Option.some.inj binder).symm
    · cases binder
  · intro s frame parent found above ih binder
    rw [binder?_child ordered found above] at binder
    split at binder
    · exact Nat.le_of_eq (Option.some.inj binder).symm
    · exact Nat.le_trans (ih binder) (Nat.le_of_lt (ordered s frame parent found above))

/-- The frame that binds a name holds what looking it up gives. -/
theorem lookup_of_binder? {h : Heap α ρ} (ordered : h.Ordered) {s t : Scope} {name : String}
    (live : s < h.next) (binder : h.binder? s name = some t) :
    (h.frame? t).bind (·.lookup name) = h.lookup s name := by
  rw [lookup_eq_view]
  refine chain_induction ordered (motive := fun s => h.binder? s name = some t →
    (h.frame? t).bind (·.lookup name) = (h.view s).findSome? (·.lookup name)) ?_ ?_ s live binder
  · intro s frame found top binder
    rw [binder?_root found top] at binder
    split at binder
    · cases binder
      simp only [found, view_root found top, List.findSome?_cons, List.findSome?_nil, Option.bind_some,
        Frame.lookup]
      cases frame.bindings.lookup name <;> rfl
    · cases binder
  · intro s frame parent found above ih binder
    rw [binder?_child ordered found above] at binder
    rw [view_child ordered found above, List.findSome?_cons]
    split at binder
    · next bound =>
      obtain ⟨value, holds⟩ := Option.isSome_iff_exists.1 bound
      cases binder
      simp [found, Frame.lookup, holds]
    · next free =>
      simp only [Bool.not_eq_true, Option.isSome_eq_false_iff, Option.isNone_iff_eq_none] at free
      simp only [free, ih binder]

theorem binder?_eq_none_iff {h : Heap α ρ} (ordered : h.Ordered) {s : Scope} {name : String}
    (live : s < h.next) : h.binder? s name = none ↔ h.lookup s name = none := by
  rw [lookup_eq_view]
  refine chain_induction ordered (motive := fun s =>
    h.binder? s name = none ↔ (h.view s).findSome? (·.lookup name) = none) ?_ ?_ s live
  · intro s frame found top
    rw [binder?_root found top, view_root found top]
    cases holds : frame.bindings.lookup name <;> simp [holds]
  · intro s frame parent found above ih
    rw [binder?_child ordered found above, view_child ordered found above, List.findSome?_cons]
    cases holds : frame.bindings.lookup name <;> simp [ih]

/-- A name that is seen is bound somewhere. -/
theorem exists_binder? {h : Heap α ρ} (ordered : h.Ordered) {s : Scope} {name : String} {value : α}
    (live : s < h.next) (found : h.lookup s name = some value) :
    ∃ t, h.binder? s name = some t ∧ (h.frame? t).bind (·.lookup name) = some value := by
  cases binder : h.binder? s name with
  | none =>
    rw [(binder?_eq_none_iff ordered live).1 binder] at found
    cases found
  | some t => exact ⟨t, rfl, (lookup_of_binder? ordered live binder).trans found⟩

theorem lt_next_of_binder? {h : Heap α ρ} (ordered : h.Ordered) {s t : Scope} {name : String} (live : s < h.next)
    (binder : h.binder? s name = some t) : t < h.next :=
  lt_next_of_mem_chain ordered live (List.mem_of_find?_eq_some binder)

/-- A frame that binds a name hides what is bound further out. -/
theorem binder?_self {h : Heap α ρ} (ordered : h.Ordered) {s : Scope} {name : String}
    (bound : h.bindsIn s name = true) : h.binder? s name = some s := by
  cases found : h.frame? s with
  | none => simp [bindsIn, found] at bound
  | some frame =>
    rw [bindsIn_of_frame? found] at bound
    cases above : frame.parent with
    | none => rw [binder?_root found above, if_pos bound]
    | some parent => rw [binder?_child ordered found above, if_pos bound]

theorem view_rebind {h : Heap α ρ} (ordered : h.Ordered) {s t : Scope} {name : String} (value : α)
    (live : s < h.next) (binder : h.binder? s name = some t) :
    (h.modify t (·.rebind name value)).view s = rebindView name value (h.view s) := by
  have same : ∀ frame : Frame α ρ, (frame.rebind name value).parent = frame.parent := fun _ => rfl
  refine chain_induction ordered (motive := fun s => h.binder? s name = some t →
    (h.modify t (·.rebind name value)).view s = rebindView name value (h.view s)) ?_ ?_ s live binder
  · intro s frame found top binder
    rw [binder?_root found top] at binder
    split at binder
    · next bound =>
      cases binder
      rw [view_modify_self ordered found same, view_root found top]
      simp [rebindView, bound, Frame.rebind]
    · cases binder
  · intro s frame parent found above ih binder
    have older := ordered s frame parent found above
    rw [binder?_child ordered found above] at binder
    split at binder
    · next bound =>
      cases binder
      rw [view_modify_self ordered found same, view_child ordered found above]
      simp [rebindView, bound, Frame.rebind]
    · next free =>
      have inside := binder?_le ordered (Nat.lt_trans older (lt_next_of_frame? found)) binder
      have other : t ≠ s := Nat.ne_of_lt (Nat.lt_of_le_of_lt inside older)
      have kept : (h.modify t (·.rebind name value)).frame? s = some frame := by
        simp [frame?_modify, other, found]
      simp [view_child (ordered.modify t same) kept above, view_child ordered found above, ih binder,
        rebindView, free]

end Heap

namespace Frame

variable {α : Type}

theorem lookup_replace (name other : String) (value : α) (bindings : List (String × α)) :
    (replace name value bindings).lookup other =
      if other = name then (bindings.lookup name).map fun _ => value else bindings.lookup other := by
  induction bindings with
  | nil => simp [replace]
  | cons binding rest ih =>
    obtain ⟨bound, old⟩ := binding
    by_cases here : bound = name
    · subst here
      by_cases same : other = bound
      · simp [replace, same]
      · have apart : (other == bound) = false := beq_eq_false_iff_ne.2 same
        simp [replace, List.lookup_cons, same, apart]
    · by_cases same : other = name
      · subst same
        have apart : (other == bound) = false := beq_eq_false_iff_ne.2 (Ne.symm here)
        simp [replace, here, List.lookup_cons, apart, ih]
      · simp [replace, here, List.lookup_cons, same, ih]

theorem mem_of_mem_replace {name : String} {value : α} {bindings : List (String × α)}
    {binding : String × α} (inside : binding ∈ replace name value bindings) :
    binding ∈ bindings ∨ binding.2 = value := by
  induction bindings with
  | nil => cases inside
  | cons first rest ih =>
    rw [replace] at inside
    split at inside
    · rcases List.mem_cons.1 inside with rfl | later
      · exact .inr rfl
      · exact .inl (List.mem_cons_of_mem _ later)
    · rcases List.mem_cons.1 inside with rfl | later
      · exact .inl List.mem_cons_self
      · rcases ih later with old | new
        · exact .inl (List.mem_cons_of_mem _ old)
        · exact .inr new

end Frame

end CheckedLisp
