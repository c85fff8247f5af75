import CheckedLisp.Check.Scope
import CheckedLisp.Proofs.Scope.Confinement

/-! A definition says whether it was accepted. Names that differ are all accepted by a frame that
binds none of them, and then each is bound to what it was defined as. -/
namespace CheckedLisp

namespace Frame

variable {α ρ : Type} {f : Frame α ρ} {name other : String} {value old : α}

theorem lookup_bind_self (f : Frame α ρ) (name : String) (value : α) :
    (f.bind name value).lookup name = some value := by
  simp [lookup, bind]

theorem lookup_bind_of_ne (f : Frame α ρ) {name other : String} (value : α) (differ : other ≠ name) :
    (f.bind name value).lookup other = f.lookup other := by
  rw [lookup, bind, List.lookup_cons, beq_eq_false_iff_ne.2 differ]
  rfl

/-- A new name hides no other. -/
theorem lookup_bind_of_free (free : name ∉ f.names) (found : f.lookup other = some old) (value : α) :
    (f.bind name value).lookup other = some old := by
  have differ : other ≠ name := by
    rintro rfl
    exact free ((f.mem_names_iff other).2 (by simp [found]))
  rw [f.lookup_bind_of_ne value differ]
  exact found

end Frame

namespace Heap

variable {α ρ : Type} {h : Heap α ρ} {s : Scope} {name : String} {value : α}

/-- Defines names one after the other, and says of each whether it was accepted. -/
def defineEach (define : Heap α ρ → String → α → Bool × Heap α ρ) :
    List (String × α) → Heap α ρ → List Bool × Heap α ρ
  | [], h => ([], h)
  | (name, value) :: rest, h =>
    let (done, h) := define h name value
    let (others, h) := defineEach define rest h
    (done :: others, h)

/-- A way to define names that adds every free name to the frame of `s`. -/
def BindsFree (s : Scope) (define : Heap α ρ → String → α → Bool × Heap α ρ) : Prop :=
  ∀ h name value frame, h.frame? s = some frame → name ∉ frame.names →
    define h name value = (true, h.modify s (·.bind name value))

theorem bindsFree_define (s : Scope) : BindsFree s fun (h : Heap α ρ) => h.define s := by
  intro h name value frame found free
  have unbound : h.bindsIn s name = false := by
    rw [Bool.eq_false_iff, ne_eq, bindsIn_iff]
    rintro ⟨other, foundOther, bound⟩
    cases found.symm.trans foundOther
    exact free bound
  simp [Heap.define, unbound]

theorem accepted_defineEach {define : Heap α ρ → String → α → Bool × Heap α ρ} (binds : BindsFree s define)
    {entries : List (String × α)} {frame : Frame α ρ} (found : h.frame? s = some frame)
    (differ : (entries.map (·.1)).Nodup) (free : ∀ entry ∈ entries, entry.1 ∉ frame.names) :
    (defineEach define entries h).1 = List.replicate entries.length true ∧
      ∃ frame', (defineEach define entries h).2.frame? s = some frame' ∧
        (∀ other old, frame.lookup other = some old → frame'.lookup other = some old) ∧
        ∀ entry ∈ entries, frame'.lookup entry.1 = some entry.2 := by
  induction entries generalizing h frame with
  | nil => exact ⟨rfl, frame, found, fun _ _ => id, List.forall_mem_nil _⟩
  | cons entry rest ih =>
    obtain ⟨name, value⟩ := entry
    obtain ⟨freeName, freeRest⟩ := List.forall_mem_cons.1 free
    obtain ⟨apart, differRest⟩ := List.nodup_cons.1 differ
    have defined := binds h name value frame found freeName
    have found₁ : (h.modify s (·.bind name value)).frame? s = some (frame.bind name value) := by
      simp [frame?_modify, found]
    have free₁ : ∀ entry ∈ rest, entry.1 ∉ (frame.bind name value).names := by
      intro entry member bound
      rcases List.mem_cons.1 bound with same | old
      · exact apart (same ▸ List.mem_map_of_mem member)
      · exact freeRest entry member old
    obtain ⟨answers, frame', found', kept, bound⟩ := ih found₁ differRest free₁
    simp only [defineEach, defined]
    refine ⟨?_, frame', found', ?_, ?_⟩
    · rw [answers, List.length_cons, List.replicate_succ]
    · intro other old foundOld
      exact kept other old (Frame.lookup_bind_of_free freeName foundOld value)
    · exact List.forall_mem_cons.2 ⟨kept name value (frame.lookup_bind_self name value), bound⟩

/-- What the frame of a scope binds, the scope sees. -/
theorem lookup_of_frame? {frame : Frame α ρ} (found : h.frame? s = some frame)
    (bound : frame.lookup name = some value) : h.lookup s name = some value := by
  have first : ∃ rest, h.chain s = s :: rest := by
    unfold chain chainUpTo
    rw [found]
    dsimp only
    cases frame.parent with
    | none => exact ⟨[], rfl⟩
    | some parent => exact ⟨_, rfl⟩
  obtain ⟨rest, chain⟩ := first
  rw [lookup, chain, List.findSome?_cons, found, Option.bind_some, bound]

/-- Distinct names are all accepted by a frame that was just opened. -/
theorem accepted_fresh {define : Heap α ρ → String → α → Bool × Heap α ρ} (binds : BindsFree h.next define)
    (parent : Option Scope) (function : Option ρ) {entries : List (String × α)}
    (differ : (entries.map (·.1)).Nodup) :
    (defineEach define entries (h.add parent function)).1 = List.replicate entries.length true ∧
      ∀ entry ∈ entries, (defineEach define entries (h.add parent function)).2.lookup h.next entry.1 = some entry.2 := by
  obtain ⟨answers, frame', found', _, bound⟩ :=
    accepted_defineEach binds (frame?_add_next h parent function) differ fun _ _ => List.not_mem_nil
  exact ⟨answers, fun entry member => lookup_of_frame? found' (bound entry member)⟩

end Heap

theorem TypeHeap.bindsFree_define (s : Scope) : Heap.BindsFree s fun (h : TypeHeap) => h.define s := by
  intro h name ty frame found free
  have unbound : frame.lookup name = none := by
    rw [← Option.not_isSome_iff_eq_none, ← frame.mem_names_iff]
    exact free
  simp [TypeHeap.define, found, unbound]

/-- An assignment to a name in sight is accepted. -/
theorem TypeHeap.widen_of_sees {h : TypeHeap} {s : Scope} {name : String} (seen : h.Sees s name) (ty : Ty) :
    (h.widen s name ty).1 = true := by
  obtain ⟨u, onChain, frame, found, bound⟩ := seen
  have isSome : (h.binder? s name).isSome = true := by
    rw [Heap.binder?, List.find?_isSome]
    exact ⟨u, onChain, (h.bindsIn_iff u name).2 ⟨frame, found, bound⟩⟩
  obtain ⟨t, binder⟩ := Option.isSome_iff_exists.1 isSome
  have binds : h.bindsIn t name = true := List.find?_some (p := (h.bindsIn · name)) binder
  obtain ⟨frame', found', bound'⟩ := (h.bindsIn_iff t name).1 binds
  obtain ⟨old, held⟩ := Option.isSome_iff_exists.1 ((frame'.mem_names_iff name).1 bound')
  simp [TypeHeap.widen, binder, found', held]

end CheckedLisp
