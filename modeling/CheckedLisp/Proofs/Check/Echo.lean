import CheckedLisp.Proofs.Check.Evolution
import CheckedLisp.Proofs.Ty.Core
import Mathlib.Data.List.Find

/-! A second check of a node opens again the frames that the first has opened, under later numbers,
on top of the frames that were there before. Those frames are as the first check has left them. If
all it had to say of their names has been said by then, nothing changes in them any more; and the
new frames come to hold types that are alike. -/
namespace CheckedLisp

/-- Scopes from `m` on have moved up by `d`. -/
def shift (m d t : Nat) : Nat := if t < m then t else t + d

section

variable {m d t u : Nat}

theorem shift_of_lt (old : t < m) : shift m d t = t := if_pos old

theorem shift_of_le (young : m ≤ t) : shift m d t = t + d := if_neg (Nat.not_lt.2 young)

theorem shift_injective (same : shift m d t = shift m d u) : t = u := by
  unfold shift at same
  split at same <;> split at same <;> omega

/-- The scopes in between belong to the first check alone. -/
theorem shift_ne (low : m ≤ u) (high : u < m + d) : shift m d t ≠ u := by
  unfold shift
  split <;> omega

theorem shift_lt_add (small : t < u) (young : m ≤ u) : shift m d t < u + d := by
  unfold shift
  split <;> omega

end

namespace TypeHeap

variable {m d : Nat} {final h h' h₁ h₂ : TypeHeap} {s t u : Nat} {name : String} {ty ty' : Ty}

theorem lookup_bind (frame : TypeFrame) (name other : String) (ty : Ty) :
    (frame.bind name ty).lookup other = if other = name then some ty else frame.lookup other := by
  by_cases same : other = name
  · simp [Frame.lookup, Frame.bind, same]
  · have apart : (other == name) = false := beq_eq_false_iff_ne.2 same
    simp [Frame.lookup, Frame.bind, List.lookup_cons, apart, same]

theorem lookup_rebind (frame : TypeFrame) (name other : String) (ty : Ty) :
    (frame.rebind name ty).lookup other =
      if other = name then (frame.lookup name).map fun _ => ty else frame.lookup other :=
  Frame.lookup_replace name other ty frame.bindings

theorem define_of_free (free : h.bound s name = none) :
    h.define s name ty = (true, Heap.modify h s (·.bind name ty)) := by
  unfold TypeHeap.define
  rw [show (h.frame? s).bind (·.lookup name) = none from free]

theorem define_of_functions {newest newer : Signature Ty} {older others : List (Signature Ty)}
    (held : h.bound s name = some (.callable newest older)) :
    h.define s name (.callable newer others) =
      (true, Heap.modify h s (·.rebind name (.callable newer (others ++ newest :: older)))) := by
  unfold TypeHeap.define
  rw [show (h.frame? s).bind (·.lookup name) = some (.callable newest older) from held]

theorem define_of_data {old : Ty} (held : h.bound s name = some old)
    (data : (old.isCallable && ty.isCallable) = false) : h.define s name ty = (false, h) := by
  unfold TypeHeap.define
  rw [show (h.frame? s).bind (·.lookup name) = some old from held]
  cases old with
  | callable newest older =>
    cases ty with
    | callable newer others => cases data
    | _ => rfl
  | _ => rfl

/-- The frames below `m` have all the names that they will have in `final`, and functions
their signatures; other types are only widened until then. -/
def Settles (m : Nat) (final h : TypeHeap) : Prop :=
  ∀ t < m, ∀ frame, h.frame? t = some frame →
    ∃ frame', final.frame? t = some frame' ∧ TypeFrame.Evolved False (fun _ => False) frame frame'

theorem Settles.refl (m : Nat) (h : TypeHeap) : Settles m h h :=
  fun _ _ frame found => ⟨frame, found, .refl False _ frame⟩

/-- What comes before a heap that settles does so as well, if nothing was defined in between
in frames that were there before. -/
theorem Settles.before {new : String → Prop} (settles : Settles m final h₂) (evolved : Evolved s new h₁ h₂)
    (calm : s < m → ∀ name, ¬ new name) : Settles m final h₁ := by
  intro t old frame found
  obtain ⟨frame₂, found₂, evolved₂⟩ := evolved.kept t frame found
  obtain ⟨frame₃, found₃, evolved₃⟩ := settles t old frame₂ found₂
  refine ⟨frame₃, found₃, (evolved₂.mono ?_).trans evolved₃⟩
  rintro name rfl isNew
  exact absurd isNew (calm old name)

theorem Settles.modify (settles : Settles m final h) (above : m ≤ u) {change : TypeFrame → TypeFrame} :
    Settles m final (Heap.modify h u change) := by
  intro t old frame found
  rw [Heap.frame?_modify, if_neg (Nat.ne_of_gt (Nat.lt_of_lt_of_le old above))] at found
  exact settles t old frame found

theorem Settles.bound (settles : Settles m final h) (old : t < m) (held : h.bound t name = some ty) :
    ∃ ty', final.bound t name = some ty' ∧ ty.Evolved False ty' := by
  obtain ⟨frame, found, here⟩ := Option.bind_eq_some_iff.1 held
  obtain ⟨frame', found', evolved⟩ := settles t old frame found
  obtain ⟨ty', here', evolvedTy⟩ := evolved.types name ty here
  exact ⟨ty', by rw [bound_of_frame? found', here'], evolvedTy.mono fun never => never.1⟩

theorem Settles.isSome_bound (settles : Settles m final h) (old : t < m) (live : t < h.next) :
    (final.bound t name).isSome = (h.bound t name).isSome := by
  obtain ⟨frame, found⟩ := Heap.exists_frame? live
  obtain ⟨frame', found', evolved⟩ := settles t old frame found
  obtain ⟨added, names, each⟩ := evolved.names
  have same : frame'.names = frame.names := by
    cases added with
    | nil => exact names
    | cons name added => exact absurd (each name List.mem_cons_self).1 not_false
  rw [bound_of_frame? found, bound_of_frame? found', Bool.eq_iff_iff, ← Frame.mem_names_iff, ← Frame.mem_names_iff,
    same]

/-- Before an assignment as well, if it is to no function that was there before. -/
theorem Settles.before_widen (settles : Settles m final (h.widen u name ty).2) (sound : Sound h) (normal : ty.Declared)
    (plain : ∀ t old, h.binder? u name = some t → t < m → h.bound t name = some old → old.isCallable = false) :
    Settles m final h := by
  cases binder : h.binder? u name with
  | none => simpa only [TypeHeap.widen, binder] using settles
  | some t =>
    obtain ⟨first, held⟩ := exists_bound binder
    rw [widen_of_binder binder held] at settles
    intro v old frame found
    by_cases here : t = v
    · subst here
      have changed : (Heap.modify h t (·.rebind name (.join [first, ty]))).frame? t =
          some (frame.rebind name (.join [first, ty])) := by
        rw [Heap.frame?_modify, if_pos rfl, found, Option.map_some]
      obtain ⟨frame', found', evolved⟩ := settles t old _ changed
      have normalFirst := sound.bindings held
      have data := plain t first binder old held
      rw [bound_of_frame? found] at held
      have widened : TypeFrame.Evolved False (fun _ => False) frame (frame.rebind name (.join [first, ty])) := by
        apply (TypeFrame.Evolved.refl False _ frame).rejoin _ held normalFirst normal
        intro _ again
        cases held.symm.trans again
        exact data
      exact ⟨frame', found', widened.trans evolved⟩
    · apply settles v old
      rw [Heap.frame?_modify, if_neg here, found]

/-- The heap `h'` of a second check, at the place where a first check had the heap `h`. The
first ended with `final`, and opened `d` frames on top of `m`. -/
structure Echo (m d : Nat) (final h h' : TypeHeap) : Prop where
  young : m ≤ h.next
  next : h'.next = h.next + d
  sound : h.Sound
  sound' : h'.Sound
  settles : Settles m final h
  parent : ∀ t < h.next, h'.parent? (shift m d t) = (h.parent? t).map (shift m d)
  function : ∀ t < h.next,
    (h'.frame? (shift m d t)).any (·.function.isSome) = (h.frame? t).any (·.function.isSome)
  /-- The frames that were there before are as in the end. -/
  old : ∀ t < m, ∀ name, (h'.bound t name).map Ty.core = (final.bound t name).map Ty.core
  new : ∀ t, m ≤ t → t < h.next → ∀ name, (h'.bound (shift m d t) name).map Ty.core = (h.bound t name).map Ty.core
  returns : ∀ t, m ≤ t → t < h.next → (h'.returns (shift m d t)).map Ty.core = (h.returns t).map Ty.core
  kept : ∀ t, m ≤ t → t < m + d → h'.frame? t = final.frame? t

namespace Echo

theorem live (echo : Echo m d final h h') (live : t < h.next) : shift m d t < h'.next := by
  rw [echo.next]
  exact shift_lt_add live echo.young

theorem chain (echo : Echo m d final h h') (live : t < h.next) :
    h'.chain (shift m d t) = (h.chain t).map (shift m d) := by
  refine Heap.chain_induction echo.sound.ordered
    (motive := fun t => h'.chain (shift m d t) = (h.chain t).map (shift m d)) ?_ ?_ t live
  · intro t frame found top
    have here := Heap.lt_next_of_frame? found
    obtain ⟨frame', found'⟩ := Heap.exists_frame? (echo.live here)
    have above := echo.parent t here
    rw [Heap.parent?, Heap.parent?, found, found', Option.bind_some, Option.bind_some, top] at above
    rw [Heap.chain_root found top, Heap.chain_root found' above, List.map_singleton]
  · intro t frame parent found isParent ih
    have here := Heap.lt_next_of_frame? found
    obtain ⟨frame', found'⟩ := Heap.exists_frame? (echo.live here)
    have above := echo.parent t here
    rw [Heap.parent?, Heap.parent?, found, found', Option.bind_some, Option.bind_some, isParent] at above
    rw [Heap.chain_child echo.sound.ordered found isParent, Heap.chain_child echo.sound'.ordered found' above, ih,
      List.map_cons]

theorem bindsIn (echo : Echo m d final h h') (live : t < h.next) (name : String) :
    h'.bindsIn (shift m d t) name = h.bindsIn t name := by
  rw [bindsIn_eq, bindsIn_eq]
  by_cases old : t < m
  · have same := congrArg Option.isSome (echo.old t old name)
    rw [Option.isSome_map, Option.isSome_map, echo.settles.isSome_bound old live] at same
    rw [shift_of_lt old, same]
  · have same := congrArg Option.isSome (echo.new t (Nat.not_lt.1 old) live name)
    rwa [Option.isSome_map, Option.isSome_map] at same

/-- Frames are found alike along chains. -/
theorem find? (echo : Echo m d final h h') (live : t < h.next) {p p' : Scope → Bool}
    (same : ∀ u < h.next, p' (shift m d u) = p u) :
    (h'.chain (shift m d t)).find? p' = ((h.chain t).find? p).map (shift m d) := by
  rw [echo.chain live, List.find?_map]
  congr 1
  apply List.find?_congr
  intro u onChain
  exact same u (Heap.lt_next_of_mem_chain echo.sound.ordered live onChain)

theorem binder? (echo : Echo m d final h h') (live : t < h.next) (name : String) :
    h'.binder? (shift m d t) name = (h.binder? t name).map (shift m d) :=
  echo.find? live fun _ here => echo.bindsIn here name

theorem function? (echo : Echo m d final h h') (live : t < h.next) :
    h'.function? (shift m d t) = (h.function? t).map (shift m d) :=
  echo.find? live echo.function

theorem bound (echo : Echo m d final h h') (live : t < h.next) (held : h.bound t name = some ty)
    (settled : t < m → ∀ ty', final.bound t name = some ty' → ty.Alike ty') :
    ∃ ty', h'.bound (shift m d t) name = some ty' ∧ ty.Alike ty' := by
  by_cases old : t < m
  · obtain ⟨last, heldLast, -⟩ := echo.settles.bound old held
    have same := echo.old t old name
    rw [heldLast, Option.map_some] at same
    obtain ⟨ty', held', alike⟩ := Option.map_eq_some_iff.1 same
    rw [shift_of_lt old]
    exact ⟨ty', held', (settled old last heldLast).trans alike.symm⟩
  · have same := echo.new t (Nat.not_lt.1 old) live name
    rw [held, Option.map_some] at same
    obtain ⟨ty', held', alike⟩ := Option.map_eq_some_iff.1 same
    exact ⟨ty', held', alike.symm⟩

/-- What was no function is none in the second check. -/
theorem bound_data (echo : Echo m d final h h') (live : t < h.next) (held : h.bound t name = some ty)
    (data : ty.isCallable = false) : ∃ ty', h'.bound (shift m d t) name = some ty' ∧ ty'.isCallable = false := by
  by_cases old : t < m
  · obtain ⟨last, heldLast, evolved⟩ := echo.settles.bound old held
    have same := echo.old t old name
    rw [heldLast, Option.map_some] at same
    obtain ⟨ty', held', alike⟩ := Option.map_eq_some_iff.1 same
    rw [shift_of_lt old]
    exact ⟨ty', held', (Ty.Alike.isCallable alike).trans (evolved.data data)⟩
  · obtain ⟨ty', held', alike⟩ := echo.bound live held fun below => absurd below old
    exact ⟨ty', held', alike.isCallable.symm.trans data⟩

/-- Both heaps change the same frame. -/
theorem modify (echo : Echo m d final h h') (live : u < h.next) {change change' : TypeFrame → TypeFrame}
    (place : ∀ frame, (change frame).parent = frame.parent ∧ (change frame).function.isSome = frame.function.isSome)
    (place' : ∀ frame, (change' frame).parent = frame.parent ∧
      (change' frame).function.isSome = frame.function.isSome)
    (sound : Sound (Heap.modify h u change)) (sound' : Sound (Heap.modify h' (shift m d u) change'))
    (settles : Settles m final (Heap.modify h u change))
    (old : u < m → ∀ frame', h'.frame? u = some frame' →
      ∀ name, ((change' frame').lookup name).map Ty.core = (final.bound u name).map Ty.core)
    (new : m ≤ u → ∀ frame frame', h.frame? u = some frame → h'.frame? (shift m d u) = some frame' →
      (∀ name, ((change' frame').lookup name).map Ty.core = ((change frame).lookup name).map Ty.core) ∧
        ((change' frame').function.getD []).map Ty.core = ((change frame).function.getD []).map Ty.core) :
    Echo m d final (Heap.modify h u change) (Heap.modify h' (shift m d u) change') := by
  obtain ⟨frame, found⟩ := Heap.exists_frame? live
  obtain ⟨frame', found'⟩ := Heap.exists_frame? (echo.live live)
  have changed : (Heap.modify h u change).frame? u = some (change frame) := by
    rw [Heap.frame?_modify, if_pos rfl, found, Option.map_some]
  have changed' : (Heap.modify h' (shift m d u) change').frame? (shift m d u) = some (change' frame') := by
    rw [Heap.frame?_modify, if_pos rfl, found', Option.map_some]
  have other {t : Nat} (apart : u ≠ t) : (Heap.modify h u change).frame? t = h.frame? t := by
    rw [Heap.frame?_modify, if_neg apart]
  have other' {t : Nat} (apart : u ≠ t) :
      (Heap.modify h' (shift m d u) change').frame? (shift m d t) = h'.frame? (shift m d t) := by
    rw [Heap.frame?_modify, if_neg fun same => apart (shift_injective same)]
  refine ⟨by simpa using echo.young, by simpa using echo.next, sound, sound', settles, ?_, ?_, ?_, ?_, ?_, ?_⟩
  · intro t here
    rw [Heap.next_modify] at here
    have same := echo.parent t here
    simp only [Heap.parent?] at same ⊢
    by_cases apart : u = t
    · subst apart
      rw [changed, changed', Option.bind_some, Option.bind_some, (place frame).1, (place' frame').1]
      rwa [found, found', Option.bind_some, Option.bind_some] at same
    · rwa [other apart, other' apart]
  · intro t here
    rw [Heap.next_modify] at here
    have same := echo.function t here
    by_cases apart : u = t
    · subst apart
      rw [changed, changed', Option.any_some, Option.any_some, (place frame).2, (place' frame').2]
      rwa [found, found', Option.any_some, Option.any_some] at same
    · rwa [other apart, other' apart]
  · intro t below name
    by_cases apart : u = t
    · subst apart
      rw [shift_of_lt below] at changed' found' ⊢
      rw [bound_of_frame? changed', old below frame' found' name]
    · have kept := other' apart
      rw [shift_of_lt below] at kept
      rw [TypeHeap.bound, kept]
      exact echo.old t below name
  · intro t above here name
    rw [Heap.next_modify] at here
    by_cases apart : u = t
    · subst apart
      rw [bound_of_frame? changed', bound_of_frame? changed]
      exact (new above frame frame' found found').1 name
    · rw [TypeHeap.bound, TypeHeap.bound, other apart, other' apart]
      exact echo.new t above here name
  · intro t above here
    rw [Heap.next_modify] at here
    by_cases apart : u = t
    · subst apart
      rw [TypeHeap.returns, TypeHeap.returns, changed, changed']
      exact (new above frame frame' found found').2
    · rw [TypeHeap.returns, TypeHeap.returns, other apart, other' apart]
      exact echo.returns t above here
  · intro t low high
    rw [Heap.frame?_modify, if_neg (shift_ne low high)]
    exact echo.kept t low high

/-- Both heaps open a frame. -/
theorem add (echo : Echo m d final h h') (live : u < h.next) {function : Option (List Ty)}
    (empty : ∀ gathered ∈ function, gathered = []) :
    Echo m d final (h.add (some u) function) (h'.add (some (shift m d u)) function) := by
  have top : shift m d h.next = h'.next := by rw [shift_of_le echo.young, echo.next]
  have grown : (h.add (some u) function).next = h.next + 1 := Heap.next_add h (some u) function
  have old {t : Nat} (here : t < h.next) : (h.add (some u) function).frame? t = h.frame? t :=
    Heap.frame?_add_of_lt h (some u) function here
  have old' {t : Nat} (here : t < h.next) :
      (h'.add (some (shift m d u)) function).frame? (shift m d t) = h'.frame? (shift m d t) :=
    Heap.frame?_add_of_lt h' (some (shift m d u)) function (echo.live here)
  have young : (h.add (some u) function).frame? h.next = some ⟨some u, function, []⟩ := by simp
  have young' : (h'.add (some (shift m d u)) function).frame? (shift m d h.next) =
      some ⟨some (shift m d u), function, []⟩ := by
    rw [top]
    simp
  have last {t : Nat} (here : t < (h.add (some u) function).next) : t < h.next ∨ t = h.next := by
    rw [grown] at here
    exact Nat.lt_succ_iff_lt_or_eq.1 here
  refine ⟨?_, ?_, echo.sound.add live empty, echo.sound'.add (echo.live live) empty, ?_, ?_, ?_, ?_, ?_, ?_, ?_⟩
  · rw [grown]
    exact Nat.le_succ_of_le echo.young
  · rw [grown, Heap.next_add, echo.next]
    exact Nat.add_right_comm _ _ _
  · intro t below frame found
    rw [old (Nat.lt_of_lt_of_le below echo.young)] at found
    exact echo.settles t below frame found
  · intro t here
    rcases last here with before | rfl
    · rw [Heap.parent?, Heap.parent?, old before, old' before]
      exact echo.parent t before
    · rw [Heap.parent?, Heap.parent?, young, young']
      rfl
  · intro t here
    rcases last here with before | rfl
    · rw [old before, old' before]
      exact echo.function t before
    · rw [young, young']
      rfl
  · intro t below name
    have before := Nat.lt_of_lt_of_le below echo.young
    have same := old' before
    rw [shift_of_lt below] at same
    rw [TypeHeap.bound, same]
    exact echo.old t below name
  · intro t above here name
    rcases last here with before | rfl
    · rw [TypeHeap.bound, TypeHeap.bound, old before, old' before]
      exact echo.new t above before name
    · rw [TypeHeap.bound, TypeHeap.bound, young, young']
      rfl
  · intro t above here
    rcases last here with before | rfl
    · rw [TypeHeap.returns, TypeHeap.returns, old before, old' before]
      exact echo.returns t above before
    · rw [TypeHeap.returns, TypeHeap.returns, young, young']
      rfl
  · intro t low high
    rw [Heap.frame?_add_of_lt]
    · exact echo.kept t low high
    · rw [echo.next]
      exact Nat.lt_of_lt_of_le high (Nat.add_le_add_right echo.young d)

theorem lookups (echo : Echo m d final h h') (above : m ≤ t) (live : t < h.next) {frame frame' : TypeFrame}
    (found : h.frame? t = some frame) (found' : h'.frame? (shift m d t) = some frame') (name : String) :
    (frame'.lookup name).map Ty.core = (frame.lookup name).map Ty.core := by
  have same := echo.new t above live name
  rwa [bound_of_frame? found, bound_of_frame? found'] at same

theorem gathered (echo : Echo m d final h h') (above : m ≤ t) (live : t < h.next) {frame frame' : TypeFrame}
    (found : h.frame? t = some frame) (found' : h'.frame? (shift m d t) = some frame') :
    (frame'.function.getD []).map Ty.core = (frame.function.getD []).map Ty.core := by
  have same := echo.returns t above live
  rwa [TypeHeap.returns, TypeHeap.returns, found, found'] at same

/-- Both heaps define a name in a frame that is new. -/
theorem define (echo : Echo m d final h h') (above : m ≤ u) (live : u < h.next) (name : String)
    (alike : ty.Alike ty') (normal : ty.Declared) (normal' : ty'.Declared) :
    (h'.define (shift m d u) name ty').1 = (h.define u name ty).1 ∧
      Echo m d final (h.define u name ty).2 (h'.define (shift m d u) name ty').2 := by
  have sound := echo.sound.define u name normal
  have sound' := echo.sound'.define (shift m d u) name normal'
  have same := echo.new u above live name
  cases held : h.bound u name with
  | none =>
    rw [held, Option.map_none, Option.map_eq_none_iff] at same
    rw [define_of_free held] at sound ⊢
    rw [define_of_free same] at sound' ⊢
    refine ⟨rfl, echo.modify live (fun _ => ⟨rfl, rfl⟩) (fun _ => ⟨rfl, rfl⟩) sound sound'
      (echo.settles.modify above) (fun below => absurd below (Nat.not_lt.2 above)) ?_⟩
    intro _ frame frame' found found'
    have gathered := echo.gathered above live found found'
    refine ⟨?_, gathered⟩
    intro other
    rw [lookup_bind, lookup_bind]
    split
    · exact congrArg some alike.symm
    · exact echo.lookups above live found found' other
  | some old =>
    rw [held, Option.map_some] at same
    obtain ⟨old', held', alikeOld⟩ := Option.map_eq_some_iff.1 same
    by_cases functions : (old.isCallable && ty.isCallable) = true
    · obtain ⟨callableOld, callable⟩ := Bool.and_eq_true_iff.1 functions
      have callableOld' := (Ty.Alike.isCallable alikeOld).trans callableOld
      have callable' := alike.isCallable.symm.trans callable
      obtain ⟨newest, older, rfl⟩ := Ty.eq_callable callableOld
      obtain ⟨newest', older', rfl⟩ := Ty.eq_callable callableOld'
      obtain ⟨newer, others, rfl⟩ := Ty.eq_callable callable
      obtain ⟨newer', others', rfl⟩ := Ty.eq_callable callable'
      rw [define_of_functions held] at sound ⊢
      rw [define_of_functions held'] at sound' ⊢
      refine ⟨rfl, echo.modify live (fun _ => ⟨rfl, rfl⟩) (fun _ => ⟨rfl, rfl⟩) sound sound'
        (echo.settles.modify above) (fun below => absurd below (Nat.not_lt.2 above)) ?_⟩
      intro _ frame frame' found found'
      have gathered := echo.gathered above live found found'
      refine ⟨?_, gathered⟩
      intro other
      rw [bound_of_frame? found] at held
      rw [bound_of_frame? found'] at held'
      rw [lookup_rebind, lookup_rebind, held, held']
      split
      · exact congrArg some (Ty.alike_overload alikeOld alike.symm)
      · exact echo.lookups above live found found' other
    · rw [Bool.not_eq_true] at functions
      have functions' : (old'.isCallable && ty'.isCallable) = false := by
        rw [Ty.Alike.isCallable alikeOld, ← alike.isCallable, functions]
      rw [define_of_data held functions, define_of_data held' functions']
      exact ⟨rfl, echo⟩

/-- What is assigned to an old name in the second check was already taken in by the first. -/
theorem alike_widened (echo : Echo m d final h h') (old : t < m) {first first' kind kind' last : Ty}
    (held : h.bound t name = some first) (held' : h'.bound t name = some first') (data : first.isCallable = false)
    (alike : kind.Alike kind') (normal : kind.Declared) (heldLast : final.bound t name = some last)
    (evolved : (Ty.join [first, kind]).Evolved False last) : (Ty.join [first', kind']).Alike last := by
  have normalFirst := echo.sound.bindings held
  have same : first'.Alike last := by
    have both := echo.old t old name
    rw [held', heldLast] at both
    exact Option.some.inj both
  obtain ⟨_, heldLast', evolvedFirst⟩ := echo.settles.bound old held
  cases heldLast.symm.trans heldLast'
  have joined : first.Evolved False (.join [first, kind]) := .join data normalFirst normal
  have below := (Ty.below_join_right normalFirst normal).trans (evolved.widened (joined.data data))
  have data' := same.isCallable.trans (evolvedFirst.data data)
  have below' := below.congr alike.bare same.symm.bare
  exact (Ty.alike_join_of_below (echo.sound'.bindings held') data' below').trans same

/-- Both heaps widen the type of a name. -/
theorem widen (echo : Echo m d final h h') (live : u < h.next) {kind kind' : Ty} (alike : kind.Alike kind')
    (normal : kind.Declared) (normal' : kind'.Declared)
    (plain : ∀ t old, h.binder? u name = some t → t < m → h.bound t name = some old → old.isCallable = false)
    (settles : Settles m final (h.widen u name kind).2) :
    Echo m d final (h.widen u name kind).2 (h'.widen (shift m d u) name kind').2 := by
  have sound := echo.sound.widen u name normal
  have sound' := echo.sound'.widen (shift m d u) name normal'
  have binders := echo.binder? live name
  cases binder : h.binder? u name with
  | none =>
    rw [binder, Option.map_none] at binders
    simpa only [TypeHeap.widen, binder, binders] using echo
  | some t =>
    rw [binder, Option.map_some] at binders
    have here : t < h.next := Heap.lt_next_of_binder? echo.sound.ordered live binder
    obtain ⟨first, held⟩ := exists_bound binder
    obtain ⟨first', held'⟩ := exists_bound binders
    rw [widen_of_binder binder held] at sound settles ⊢
    rw [widen_of_binder binders held'] at sound' ⊢
    refine echo.modify here (fun _ => ⟨rfl, rfl⟩) (fun _ => ⟨rfl, rfl⟩) sound sound' settles ?_ ?_
    · intro old frame' found' other
      rw [shift_of_lt old] at held'
      have own := held'
      rw [bound_of_frame? found'] at own
      rw [lookup_rebind, own]
      split
      · next same =>
        rw [same]
        obtain ⟨frame, found⟩ := Heap.exists_frame? here
        have after : TypeHeap.bound (Heap.modify h t (·.rebind name (.join [first, kind]))) t name =
            some (.join [first, kind]) := by
          rw [bound_of_frame? found] at held
          simp [TypeHeap.bound, Heap.frame?_modify, found, lookup_rebind, held]
        obtain ⟨last, heldLast, evolved⟩ := settles.bound old after
        rw [heldLast]
        have data := plain t first binder old held
        exact congrArg some (echo.alike_widened old held held' data alike normal heldLast evolved)
      · have kept := echo.old t old other
        rwa [bound_of_frame? found'] at kept
    · intro above frame frame' found found'
      have gathered := echo.gathered above here found found'
      refine ⟨?_, gathered⟩
      intro other
      have alikeFirst := echo.new t above here name
      rw [held, held', Option.map_some, Option.map_some, Option.some.injEq] at alikeFirst
      have normalFirst := echo.sound.bindings held
      have normalFirst' := echo.sound'.bindings held'
      rw [bound_of_frame? found] at held
      rw [bound_of_frame? found'] at held'
      rw [lookup_rebind, lookup_rebind, held, held']
      split
      · refine congrArg some (Ty.alike_join ?_ ?_ ?_)
        · simp [alikeFirst, show kind.core = kind'.core from alike]
        · simp [normalFirst', normal']
        · simp [normalFirst, normal]
      · exact echo.lookups above here found found' other

/-- Both heaps gather a type. -/
theorem recordReturn (echo : Echo m d final h h') (live : u < h.next) (alike : ty.Alike ty') (normal : ty.Declared)
    (normal' : ty'.Declared) (recorded : h.recordReturn u ty = (true, h₁)) (settles : Settles m final h₁) :
    ∃ h₁', h'.recordReturn (shift m d u) ty' = (true, h₁') ∧ Echo m d final h₁ h₁' := by
  have sound := echo.sound.recordReturn u normal
  have sound' := echo.sound'.recordReturn (shift m d u) normal'
  have owners := echo.function? live
  rw [recorded] at sound
  cases owner : h.function? u with
  | none =>
    simp only [TypeHeap.recordReturn, owner] at recorded
    cases recorded
  | some t =>
    rw [owner, Option.map_some] at owners
    have here : t < h.next :=
      Heap.lt_next_of_mem_chain echo.sound.ordered live (List.mem_of_find?_eq_some owner)
    simp only [TypeHeap.recordReturn, owner] at recorded
    cases recorded
    simp only [TypeHeap.recordReturn, owners] at sound' ⊢
    refine ⟨_, rfl, echo.modify here (fun _ => ⟨rfl, Option.isSome_map⟩) (fun _ => ⟨rfl, Option.isSome_map⟩)
      sound sound' settles ?_ ?_⟩
    · intro old frame' found' name
      have kept := echo.old t old name
      rwa [bound_of_frame? found'] at kept
    · intro above frame frame' found found'
      have lookups := echo.lookups above here found found'
      have gathered := echo.gathered above here found found'
      refine ⟨lookups, ?_⟩
      have isFunction : frame.function.isSome = true := by
        have isOwner := List.find?_some owner
        simpa [found] using isOwner
      have isFunction' : frame'.function.isSome = true := by
        have same := echo.function t here
        simpa [found, found', isFunction] using same
      obtain ⟨before, isBefore⟩ := Option.isSome_iff_exists.1 isFunction
      obtain ⟨before', isBefore'⟩ := Option.isSome_iff_exists.1 isFunction'
      simp only [isBefore, isBefore', Option.map_some, Option.getD_some, List.map_append, List.map_singleton]
        at gathered ⊢
      rw [gathered, show ty.core = ty'.core from alike]

theorem clearReturns (echo : Echo m d final h h') (above : m ≤ u) (live : u < h.next) :
    Echo m d final (h.clearReturns u) (h'.clearReturns (shift m d u)) := by
  refine echo.modify live (fun _ => ⟨rfl, Option.isSome_map⟩) (fun _ => ⟨rfl, Option.isSome_map⟩)
    (echo.sound.clearReturns u) (echo.sound'.clearReturns (shift m d u)) (echo.settles.modify above)
    (fun below => absurd below (Nat.not_lt.2 above)) ?_
  intro _ frame frame' found found'
  have lookups := echo.lookups above live found found'
  refine ⟨lookups, ?_⟩
  cases frame.function <;> cases frame'.function <;> rfl

end Echo

end TypeHeap

end CheckedLisp
