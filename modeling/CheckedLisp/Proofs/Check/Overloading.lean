import CheckedLisp.Proofs.Check.Preservation
import CheckedLisp.Proofs.Scope.Acceptance

/-! Functions defined one after the other under one name of a frame become one function with the
signatures of all, those of the newest definition first. Nothing else changes: what another name or
another frame holds keeps its signatures, be it the same function from before. New signatures leave
the calls alone that they do not take. -/
namespace CheckedLisp

theorem Ty.signatures_ne_nil {ty : Ty} (callable : ty.isCallable = true) : ty.signatures ≠ [] := by
  cases ty with
  | callable => exact List.cons_ne_nil _ _
  | _ => cases callable

namespace TypeHeap

/-- Nothing has changed but what `name` is bound to in the frame of `s`. -/
structure Rebound (s : Scope) (name : String) (h h' : TypeHeap) : Prop where
  foreign : ∀ t ≠ s, h'.frame? t = h.frame? t
  own : ∀ frame, h.frame? s = some frame → ∃ frame', h'.frame? s = some frame' ∧
    frame'.parent = frame.parent ∧ frame'.function = frame.function ∧
    ∀ other ≠ name, frame'.lookup other = frame.lookup other

/-- The frame of `s` binds the name to a function or not at all. -/
def Overloadable (h : TypeHeap) (s : Scope) (name : String) : Prop := ∀ ty ∈ h.bound s name, ty.isCallable = true

/-- Defines types one after the other under one name, and says of each whether it was
accepted. -/
def defineUnder (h : TypeHeap) (s : Scope) (name : String) (tys : List Ty) : List Bool × TypeHeap :=
  Heap.defineEach (fun h : TypeHeap => h.define s) (tys.map (name, ·)) h

section

variable {h h₁ h₂ : TypeHeap} {s : Scope} {name : String} {ty : Ty} {tys : List Ty}

theorem Rebound.refl (s : Scope) (name : String) (h : TypeHeap) : Rebound s name h h :=
  ⟨fun _ _ => rfl, fun frame found => ⟨frame, found, rfl, rfl, fun _ _ => rfl⟩⟩

theorem Rebound.trans (first : Rebound s name h h₁) (second : Rebound s name h₁ h₂) : Rebound s name h h₂ where
  foreign t other := (second.foreign t other).trans (first.foreign t other)
  own frame found := by
    obtain ⟨frame₁, found₁, parent₁, function₁, lookup₁⟩ := first.own frame found
    obtain ⟨frame₂, found₂, parent₂, function₂, lookup₂⟩ := second.own frame₁ found₁
    refine ⟨frame₂, found₂, parent₂.trans parent₁, function₂.trans function₁, ?_⟩
    intro other differ
    rw [lookup₂ other differ, lookup₁ other differ]

theorem Rebound.live (rebound : Rebound s name h h₁) (live : s < h.next) : s < h₁.next := by
  obtain ⟨frame, found⟩ := Heap.exists_frame? live
  obtain ⟨frame', found', -⟩ := rebound.own frame found
  exact Heap.lt_next_of_frame? found'

theorem rebound_modify {change : TypeFrame → TypeFrame} (parent : ∀ frame, (change frame).parent = frame.parent)
    (function : ∀ frame, (change frame).function = frame.function)
    (lookup : ∀ frame, ∀ other ≠ name, (change frame).lookup other = frame.lookup other) :
    Rebound s name h (Heap.modify h s change) where
  foreign t other := by rw [Heap.frame?_modify, if_neg other.symm]
  own frame found :=
    ⟨change frame, by rw [Heap.frame?_modify, if_pos rfl, found]; rfl, parent frame, function frame, lookup frame⟩

/-- A definition touches nothing but its name. -/
theorem rebound_define (h : TypeHeap) (s : Scope) (name : String) (ty : Ty) :
    Rebound s name h (h.define s name ty).2 := by
  rcases define_cases h s name ty with ⟨_, bound⟩ | ⟨_, _, _, _, _, _, bound⟩ | refused
  · rw [bound]
    refine rebound_modify (fun _ => rfl) (fun _ => rfl) ?_
    intro frame other differ
    exact frame.lookup_bind_of_ne ty differ
  · rw [bound]
    refine rebound_modify (fun _ => rfl) (fun _ => rfl) ?_
    intro frame other differ
    rw [Frame.lookup, Frame.rebind, Frame.lookup_replace, if_neg differ]
    rfl
  · rw [refused]
    exact .refl s name h

/-- One more function is accepted, and its signatures come first. -/
theorem define_function (live : s < h.next) (overloadable : h.Overloadable s name) (newer : Signature Ty)
    (others : List (Signature Ty)) :
    (h.define s name (.callable newer others)).1 = true ∧
      (h.define s name (.callable newer others)).2.bound s name =
        some (.callable newer (others ++ h.signatures s name)) := by
  obtain ⟨frame, found⟩ := Heap.exists_frame? live
  cases held : frame.lookup name with
  | none =>
    have defined : h.define s name (.callable newer others) =
        (true, Heap.modify h s (·.bind name (.callable newer others))) := by
      simp [TypeHeap.define, found, held]
    rw [defined]
    simp [bound, signatures, Heap.frame?_modify, found, held, Frame.lookup_bind_self]
  | some old =>
    have isFunction := overloadable old (by rw [bound_of_frame? found, held]; rfl)
    cases old with
    | callable newest older =>
      have defined : h.define s name (.callable newer others) =
          (true, Heap.modify h s (·.rebind name (.callable newer (others ++ newest :: older)))) := by
        simp [TypeHeap.define, found, held]
      rw [Frame.lookup] at held
      rw [defined]
      simp [bound, signatures, Heap.frame?_modify, found, Frame.lookup, Frame.rebind, Frame.lookup_replace, held,
        Ty.signatures]
    | _ => cases isFunction

theorem signatures_of_bound (held : h.bound s name = some ty) : h.signatures s name = ty.signatures := by
  rw [signatures, ← bound, held]
  rfl

theorem defineUnder_cons (h : TypeHeap) (s : Scope) (name : String) (ty : Ty) (tys : List Ty) :
    h.defineUnder s name (ty :: tys) =
      ((h.define s name ty).1 :: ((h.define s name ty).2.defineUnder s name tys).1,
        ((h.define s name ty).2.defineUnder s name tys).2) := rfl

theorem rebound_defineUnder (h : TypeHeap) (s : Scope) (name : String) (tys : List Ty) :
    Rebound s name h (h.defineUnder s name tys).2 := by
  induction tys generalizing h with
  | nil => exact .refl s name h
  | cons ty tys ih => exact (rebound_define h s name ty).trans (ih (h.define s name ty).2)

/-- Functions under one name are all accepted, and their signatures are gathered. -/
theorem defineUnder_functions (live : s < h.next) (overloadable : h.Overloadable s name)
    (callable : ∀ ty ∈ tys, ty.isCallable = true) :
    (h.defineUnder s name tys).1 = List.replicate tys.length true ∧
      (h.defineUnder s name tys).2.signatures s name = tys.reverse.flatMap Ty.signatures ++ h.signatures s name := by
  induction tys generalizing h with
  | nil => exact ⟨rfl, rfl⟩
  | cons ty tys ih =>
    obtain ⟨first, rest⟩ := List.forall_mem_cons.1 callable
    cases ty with
    | callable newer others =>
      obtain ⟨done, held⟩ := define_function live overloadable newer others
      have live₁ := (rebound_define h s name (.callable newer others)).live live
      have overloadable₁ : (h.define s name (.callable newer others)).2.Overloadable s name := by
        rw [Overloadable, held]
        rintro _ ⟨⟩
        rfl
      obtain ⟨answers, gathered⟩ := ih live₁ overloadable₁ rest
      rw [defineUnder_cons]
      constructor
      · rw [done, answers, List.length_cons, List.replicate_succ]
      · rw [gathered, signatures_of_bound held]
        simp [Ty.signatures]
    | _ => cases first

end

theorem exists_of_signatures {h : TypeHeap} {s : Scope} {name : String} (some : h.signatures s name ≠ []) :
    ∃ ty, h.lookup s name = .some ty ∧ ty.isCallable = true ∧ ty.signatures = h.signatures s name := by
  cases found : h.frame? s with
  | none => simp [signatures, found] at some
  | some frame =>
    cases held : frame.lookup name with
    | none => simp [signatures, found, held] at some
    | some ty =>
      have same : h.signatures s name = ty.signatures := by simp [signatures, found, held]
      refine ⟨ty, Heap.lookup_of_frame? found held, ?_, same.symm⟩
      by_contra data
      rw [same, Ty.signatures_of_data (by simpa using data)] at some
      exact some rfl

/-- A frame that was just opened binds nothing, and its names hide those around it. -/
theorem define_opened (h : TypeHeap) (s : Scope) (function : Option (List Ty)) (name : String) (ty : Ty) :
    let inner : TypeHeap := h.add (some s) function
    (inner.define h.next name ty).1 = true ∧ (inner.define h.next name ty).2.lookup h.next name = some ty ∧
      ∀ t < h.next, (inner.define h.next name ty).2.frame? t = h.frame? t := by
  intro inner
  have found : inner.frame? h.next = some ⟨some s, function, []⟩ := h.frame?_add_next (some s) function
  have defined : inner.define h.next name ty = (true, Heap.modify inner h.next (·.bind name ty)) :=
    bindsFree_define h.next inner name ty _ found List.not_mem_nil
  have bound : (Heap.modify inner h.next (·.bind name ty)).frame? h.next =
      some (Frame.bind ⟨some s, function, []⟩ name ty) := by
    rw [Heap.frame?_modify, if_pos rfl, found]
    rfl
  rw [defined]
  refine ⟨rfl, Heap.lookup_of_frame? bound (Frame.lookup_bind_self _ name ty), ?_⟩
  intro t old
  rw [Heap.frame?_modify, if_neg (Nat.ne_of_gt old), Heap.frame?_add_of_lt h (some s) function old]

/-- Functions under one name. A frame that does not bind the name accepts them all, and the
name then has all their signatures, those of the newest function first. A definition changes
nothing but what its name is bound to in its frame, so that other names and frames keep what
they hold, also if it is the same function from before; and in a frame that was just opened
the name starts anew. As to calls, signatures that were put in front decide those that they
take, and leave the others to the older ones. -/
theorem functions_gathered {h : TypeHeap} {s : Scope} {name : String} {tys : List Ty} (live : s < h.next)
    (free : h.bound s name = none) (nonempty : tys ≠ []) (callable : ∀ ty ∈ tys, ty.isCallable = true) :
    (h.defineUnder s name tys).1 = List.replicate tys.length true ∧
    (∃ ty, (h.defineUnder s name tys).2.lookup s name = some ty ∧ ty.isCallable = true ∧
      ty.signatures = tys.reverse.flatMap Ty.signatures) ∧
    (∀ (g : TypeHeap) (more : List Ty), Rebound s name g (g.defineUnder s name more).2) ∧
    (∀ (outer : TypeHeap) (function : Option (List Ty)) (ty : Ty),
      let inner : TypeHeap := outer.add (some s) function
      (inner.define outer.next name ty).1 = true ∧
        (inner.define outer.next name ty).2.lookup outer.next name = some ty ∧
        ∀ t < outer.next, (inner.define outer.next name ty).2.frame? t = outer.frame? t) ∧
    ∀ (newer older : List Candidate) (args : List Ty),
      ((∃ c ∈ newer, Signature.Takes c.signature.params args) →
        Candidate.call (newer ++ older) args = Candidate.call newer args) ∧
      ((∀ c ∈ newer, ¬ Signature.Takes c.signature.params args) →
        (∃ c ∈ older, Signature.Takes c.signature.params args) →
        Candidate.call (newer ++ older) args = Candidate.call older args) := by
  have overloadable : h.Overloadable s name := by
    rw [Overloadable, free]
    rintro _ ⟨⟩
  obtain ⟨answers, gathered⟩ := defineUnder_functions live overloadable callable
  have own : h.signatures s name = [] := by
    rw [signatures, ← bound, free]
    rfl
  rw [own, List.append_nil] at gathered
  refine ⟨answers, ?_, fun g more => rebound_defineUnder g s name more, ?_, ?_⟩
  · have some : tys.reverse.flatMap Ty.signatures ≠ [] := by
      obtain ⟨ty, here⟩ := List.exists_mem_of_ne_nil tys nonempty
      obtain ⟨signature, inside⟩ := List.exists_mem_of_ne_nil _ (Ty.signatures_ne_nil (callable ty here))
      exact List.ne_nil_of_mem (List.mem_flatMap.2 ⟨ty, List.mem_reverse.2 here, inside⟩)
    rw [← gathered] at some ⊢
    exact exists_of_signatures some
  · intro outer function ty
    exact define_opened outer s function name ty
  · intro newer older args
    exact ⟨Candidate.call_append_of_takes, Candidate.call_append_of_refused⟩

/-- A function with two signatures and then a third one, defined among the global names. -/
theorem functions_gathered_thrice :
    let twofold : Ty := .callable (.declared [.int] .int) [.declared [.string] .string]
    let tys := [twofold, .function [.bool] .bool]
    start.bound globalScope "f" = none ∧ (start.defineUnder globalScope "f" tys).1 = [true, true] ∧
      ∃ ty, (start.defineUnder globalScope "f" tys).2.lookup globalScope "f" = some ty ∧
        ty.signatures = [.declared [.bool] .bool, .declared [.int] .int, .declared [.string] .string] := by
  intro twofold tys
  have free : start.bound globalScope "f" = none := by decide +kernel
  have callable : ∀ ty ∈ tys, ty.isCallable = true := by simp [tys, twofold, Ty.function, Ty.isCallable]
  obtain ⟨answers, ⟨ty, found, -, signatures⟩, -⟩ :=
    functions_gathered (s := globalScope) (by decide) free (List.cons_ne_nil _ _) callable
  exact ⟨free, answers, ty, found, signatures⟩

end TypeHeap

end CheckedLisp
