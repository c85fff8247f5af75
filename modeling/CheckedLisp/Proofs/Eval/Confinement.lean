import CheckedLisp.Proofs.Eval.Budget
import CheckedLisp.Proofs.Eval.WellScoped
import CheckedLisp.Proofs.Scope.Confinement

/-! An evaluation in a scope binds new names in the frame of that scope and in frames that it opens,
whatever it calls and however it ends. Closures are called in frames of their own, and quoted code
runs in the scope that asks for it. That values lead only to frames that exist is carried along,
since a call opens its frame inside the scope of a value. -/
namespace CheckedLisp

/-- Results and exits, and what it means that their scopes lie below a bound. -/
class Scoped (α : Type) where
  Within : Nat → α → Prop

namespace Scoped

instance : Scoped Value := ⟨Value.Within⟩

instance : Scoped (List Value) := ⟨fun bound values => ∀ value ∈ values, value.Within bound⟩

instance : Scoped (Option Value) := ⟨fun bound found => ∀ value ∈ found, value.Within bound⟩

instance : Scoped Bool := ⟨fun _ _ => True⟩

instance : Scoped Unit := ⟨fun _ _ => True⟩

instance : Scoped Eval.Exit where
  Within bound
  | .ret value => value.Within bound
  | .failure _ => True

instance : Scoped Builtin.Exit := ⟨fun _ _ => True⟩

end Scoped

namespace Confinement

open Budget (Ending)
open Eval

variable {ε α β : Type} [Scoped ε] [Scoped α] [Scoped β]

/-- What is given, be it a result or an exit, leads only to frames of the machine. -/
def GivenWithin : Ending ε α → Prop
  | .ok a m => Scoped.Within m.heap.next a
  | .error e m => Scoped.Within m.heap.next e

/-- How a computation on `m` ends when it defines names in `s` alone. -/
structure Ended (s : Scope) (m : Machine) (r : Ending ε α) : Prop where
  sound : r.machine.heap.WellScoped
  confined : m.heap.Confined s r.machine.heap
  within : GivenWithin r

variable {s t : Scope} {m m' : Machine}

theorem Ended.ok {a : α} (sound : m.heap.WellScoped) (within : Scoped.Within m.heap.next a) :
    Ended s m (.ok a m : Ending ε α) :=
  ⟨sound, .refl s m.heap, within⟩

theorem Ended.error {e : ε} (sound : m.heap.WellScoped) (within : Scoped.Within m.heap.next e) :
    Ended s m (.error e m : Ending ε α) :=
  ⟨sound, .refl s m.heap, within⟩

theorem Ended.after {r : Ending ε α} (ended : Ended t m' r) (before : m.heap.Confined s m'.heap)
    (inside : t = s ∨ m.heap.next ≤ t) : Ended s m r :=
  ⟨ended.sound, before.trans ended.confined inside, ended.within⟩

theorem Ended.bind {x : EStateM ε Machine α} {next : α → EStateM ε Machine β} (first : Ended s m (x m))
    (second : ∀ a m', m'.heap.WellScoped → m.heap.next ≤ m'.heap.next → Scoped.Within m'.heap.next a →
      Ended s m' (next a m')) : Ended s m ((x >>= next) m) := by
  rw [Sequencing.bind_apply]
  cases run : x m with
  | ok a m' =>
    rw [run] at first
    exact (second a m' first.sound first.confined.next first.within).after first.confined (.inl rfl)
  | error e m' =>
    rw [run] at first
    exact ⟨first.sound, first.confined, first.within⟩

theorem Ended.next {x : EStateM ε Machine α} {a : α} (ended : Ended s m (x m)) (done : x m = .ok a m')
    (live : s < m.heap.next) :
    m'.heap.WellScoped ∧ s < m'.heap.next ∧ Scoped.Within m'.heap.next a := by
  rw [done] at ended
  exact ⟨ended.sound, Nat.lt_of_lt_of_le live ended.confined.next, ended.within⟩

/-- Work in a frame that was just opened touches no older frame. -/
theorem ended_enter {next : Scope → Run α} (sound : m.heap.WellScoped) {parent : Scope}
    (live : parent < m.heap.next) (function : Option Unit) (inside : t = s ∨ m.heap.next ≤ t)
    (second : ∀ m', m'.heap = m.heap.add (some parent) function → m'.heap.WellScoped →
      m.heap.next < m'.heap.next → Ended t m' (next m.heap.next m')) :
    Ended s m ((enter parent function >>= next) m) := by
  have older : ∀ above ∈ some parent, above < m.heap.next := by
    rintro _ ⟨⟩
    exact live
  have grown : m.heap.next < (m.heap.add (some parent) function).next := by
    rw [Heap.next_add]
    exact Nat.lt_succ_self _
  let m' : Machine := { m with heap := m.heap.add (some parent) function }
  have opened : Ended t m' (next m.heap.next m') := second m' rfl (sound.add older function) grown
  exact opened.after (Heap.confined_add s live function) inside

theorem ended_fail (sound : m.heap.WellScoped) (span : Span) (fault : Fault) :
    Ended s m ((fail span fault : Run α) m) :=
  .error sound trivial

theorem ended_define (sound : m.heap.WellScoped) (name : String) {value : Value}
    (within : value.Within m.heap.next) : Ended s m (define s name value m) :=
  ⟨sound.define s name within, Heap.confined_define m.heap s name value, trivial⟩

theorem ended_assign (sound : m.heap.WellScoped) (t : Scope) (name : String) {value : Value}
    (within : value.Within m.heap.next) : Ended s m (assign t name value m) :=
  ⟨sound.assign t name within, Heap.confined_assign m.heap s t name value, trivial⟩

theorem ended_tick (sound : m.heap.WellScoped) (span : Span) : Ended s m (tick span m) := by
  unfold tick
  split
  · exact .error sound trivial
  · split
    · exact ⟨sound, .refl s m.heap, trivial⟩
    · exact ⟨sound, .refl s m.heap, trivial⟩

theorem ended_atom (sound : m.heap.WellScoped) (t : Scope) (span : Span) (a : Atom) :
    Ended s m (atom t span a m) := by
  cases a with
  | bool b => exact .ok sound trivial
  | string text => exact .ok sound trivial
  | int digits =>
    simp only [atom]
    cases (Decimal.integer? digits).bind word? with
    | some n => exact .ok sound trivial
    | none => exact ended_fail sound _ _
  | float digits =>
    simp only [atom]
    cases (Decimal.float? digits).filter Float.isFinite with
    | some x => exact .ok sound trivial
    | none => exact ended_fail sound _ _
  | symbol name =>
    have looked : Ended s m (lookup t name m) := by
      refine .ok sound ?_
      intro value found
      exact sound.lookup found
    refine looked.bind ?_
    intro found m' sound' _ within
    cases found with
    | some value => exact .ok sound' (within value rfl)
    | none => exact ended_fail sound' _ _

theorem ended_truth (sound : m.heap.WellScoped) (span : Span) (value : Value) :
    Ended s m (truth span value m) := by
  cases value with
  | bool b => exact .ok sound trivial
  | _ => exact ended_fail sound _ _

/-- Evaluation that defines names only in the scope it is in. -/
def Confining (s : Scope) (eval : Node → Run Value) : Prop :=
  ∀ n m, m.heap.WellScoped → s < m.heap.next → Ended s m (eval n m)

section Parts

variable {eval : Node → Run Value} (confining : Confining s eval)

include confining

theorem ended_sequence (sound : m.heap.WellScoped) (live : s < m.heap.next) (forms : List Node)
    {last : Value} (within : last.Within m.heap.next) : Ended s m (sequence eval last forms m) := by
  induction forms generalizing last m with
  | nil => exact .ok sound within
  | cons form forms ih =>
    refine (confining form m sound live).bind ?_
    intro value m' sound' grown within'
    exact ih sound' (Nat.lt_of_lt_of_le live grown) within'

theorem ended_collect (sound : m.heap.WellScoped) (live : s < m.heap.next) (forms : List Node) :
    Ended s m (collect eval forms m) := by
  induction forms generalizing m with
  | nil => exact .ok sound (by rintro _ ⟨⟩)
  | cons form forms ih =>
    refine (confining form m sound live).bind ?_
    intro value m₁ sound₁ grown₁ within₁
    refine (ih sound₁ (Nat.lt_of_lt_of_le live grown₁)).bind ?_
    intro values m₂ sound₂ grown₂ within₂
    exact .ok sound₂ (List.forall_mem_cons.2 ⟨Value.Within.mono grown₂ within₁, within₂⟩)

theorem ended_choose (sound : m.heap.WellScoped) (live : s < m.heap.next) (otherwise : Node)
    (cases : List (Node × Node)) : Ended s m (choose eval otherwise cases m) := by
  induction cases generalizing m with
  | nil => exact confining otherwise m sound live
  | cons first rest ih =>
    refine (confining first.1 m sound live).bind ?_
    intro value m₁ sound₁ grown₁ _
    refine (ended_truth sound₁ first.1.span value).bind ?_
    intro holds m₂ sound₂ grown₂ _
    have live₂ := Nat.lt_of_lt_of_le live (Nat.le_trans grown₁ grown₂)
    cases holds with
    | true => exact confining first.2 m₂ sound₂ live₂
    | false => exact ih sound₂ live₂

theorem ended_turns (sound : m.heap.WellScoped) (live : s < m.heap.next) (predicate body : Node)
    (count : Nat) : Ended s m (turns eval predicate body count m) := by
  induction count generalizing m with
  | zero => exact ended_fail sound _ _
  | succ count ih =>
    refine (confining predicate m sound live).bind ?_
    intro value m₁ sound₁ grown₁ _
    refine (ended_truth sound₁ predicate.span value).bind ?_
    intro holds m₂ sound₂ grown₂ _
    have live₂ := Nat.lt_of_lt_of_le live (Nat.le_trans grown₁ grown₂)
    cases holds with
    | true =>
      refine (confining body m₂ sound₂ live₂).bind ?_
      intro _ m₃ sound₃ grown₃ _
      exact ih sound₃ (Nat.lt_of_lt_of_le live₂ grown₃)
    | false => exact .ok sound₂ trivial

end Parts

theorem ended_bindAll (sound : m.heap.WellScoped) (params : List Name) {args : List Value}
    (within : ∀ arg ∈ args, arg.Within m.heap.next) : Ended s m (bindAll s params args m) := by
  induction params generalizing args m with
  | nil => exact .ok sound trivial
  | cons param params ih =>
    cases args with
    | nil => exact .ok sound trivial
    | cons arg args =>
      obtain ⟨withinArg, withinArgs⟩ := List.forall_mem_cons.1 within
      refine (ended_define sound param.text withinArg).bind ?_
      intro _ m' sound' grown _
      exact ih sound' fun arg member => (withinArgs arg member).mono grown

theorem Ended.catchReturn {x : Run Value} (ended : Ended s m (x m)) : Ended s m (catchReturn x m) := by
  unfold Eval.catchReturn
  match run : x m with
  | .ok value m' | .error (.failure failure) m' =>
    rw [run] at ended
    exact ended
  | .error (.ret value) m' =>
    rw [run] at ended
    exact ⟨ended.sound, ended.confined, ended.within⟩

theorem Ended.evaluated {x : Run Value} (ended : Ended s m (x m)) : Ended s m (Builtin.evaluated x m) := by
  unfold Builtin.evaluated
  match run : x m with
  | .ok value m' | .error (.ret value) m' =>
    rw [run] at ended
    exact ⟨ended.sound, ended.confined, ended.within⟩
  | .error (.failure failure) m' =>
    rw [run] at ended
    exact ⟨ended.sound, ended.confined, trivial⟩

theorem Ended.calling {x : Builtin.Call Value} (ended : Ended s m (x m)) (span : Span) (function : Builtin) :
    Ended s m (calling span function x m) := by
  unfold Eval.calling
  match run : x m with
  | .ok value m' =>
    rw [run] at ended
    exact ⟨ended.sound, ended.confined, ended.within⟩
  | .error (.fault fault) m' | .error (.nested failure) m' =>
    rw [run] at ended
    exact ⟨ended.sound, ended.confined, trivial⟩

section Evaluator

variable {eval : Scope → Node → Run Value} (confining : ∀ s, Confining s (eval s))

include confining

/-- Of all built-in functions only `eval` defines names, and it does so around its frame. -/
theorem ended_call (sound : m.heap.WellScoped) {frame : Scope} (live : frame < m.heap.next)
    (function : Builtin) {args : List Value} (within : ∀ arg ∈ args, arg.Within m.heap.next) :
    Ended ((m.heap.parent? frame).getD frame) m (function.call eval frame args m) := by
  have called : Builtin.Called eval frame args m (function.call eval frame args m) := Builtin.called function
  generalize function.call eval frame args m = r at called
  cases called with
  | given same made =>
    have withinValue := made _ (Value.hereditary_within m.heap.next) within
    rw [← same] at sound withinValue
    exact ⟨sound, same ▸ .refl _ _, withinValue⟩
  | refused same =>
    rw [← same] at sound
    exact ⟨sound, same ▸ .refl _ _, trivial⟩
  | quoted only =>
    have liveCaller : (m.heap.parent? frame).getD frame < m.heap.next := by
      cases above : m.heap.parent? frame with
      | none => exact live
      | some parent =>
        obtain ⟨found, foundFrame, isParent⟩ := Option.bind_eq_some_iff.1 above
        exact Nat.lt_trans (sound.ordered frame found parent foundFrame isParent) live
    exact (confining _ _ m sound liveCaller).evaluated

theorem ended_apply (sound : m.heap.WellScoped) (live : s < m.heap.next) (span : Span) {args : List Value}
    (within : ∀ arg ∈ args, arg.Within m.heap.next) {function : Value}
    (known : function.Within m.heap.next) : Ended s m (Eval.apply eval s span args function m) := by
  cases function with
  | lambda closure =>
    simp only [Eval.apply]
    split
    · refine ended_enter sound known (some ()) (.inr (Nat.le_refl _)) ?_
      intro m₁ _ sound₁ grown
      have within₁ : ∀ arg ∈ args, arg.Within m₁.heap.next :=
        fun arg member => (within arg member).mono (Nat.le_of_lt grown)
      refine (ended_bindAll sound₁ closure.params within₁).bind ?_
      intro _ m₂ sound₂ grown₂ _
      exact (confining _ closure.body m₂ sound₂ (Nat.lt_of_lt_of_le grown grown₂)).catchReturn
    · exact ended_fail sound _ _
  | builtin function =>
    refine ended_enter sound live (some ()) (.inl rfl) ?_
    intro m₁ opened sound₁ grown
    have within₁ : ∀ arg ∈ args, arg.Within m₁.heap.next :=
      fun arg member => (within arg member).mono (Nat.le_of_lt grown)
    have called := ended_call confining sound₁ grown function within₁
    have caller : (m₁.heap.parent? m.heap.next).getD m.heap.next = s := by
      rw [opened, Heap.parent?_add_next]
      rfl
    rw [caller] at called
    exact called.calling span function
  | _ => exact ended_fail sound _ _

theorem ended_step (sound : m.heap.WellScoped) (live : s < m.heap.next) (fuel : Nat) (n : Node) :
    Ended s m (step eval fuel s n m) := by
  cases n with
  | unit span => exact .ok sound trivial
  | atom span a => exact ended_atom sound s span a
  | block span forms =>
    refine ended_enter sound live none (.inr (Nat.le_refl _)) ?_
    intro m₁ _ sound₁ grown
    exact ended_sequence (confining _) sound₁ grown forms trivial
  | call span callee args =>
    refine (confining s callee m sound live).bind ?_
    intro function m₁ sound₁ grown₁ known
    have live₁ := Nat.lt_of_lt_of_le live grown₁
    refine (ended_collect (confining s) sound₁ live₁ args).bind ?_
    intro values m₂ sound₂ grown₂ within
    have live₂ := Nat.lt_of_lt_of_le live₁ grown₂
    exact ended_apply confining sound₂ live₂ span within (Value.Within.mono grown₂ known)
  | conditional span cases otherwise => exact ended_choose (confining s) sound live otherwise cases
  | loop span predicate body => exact ended_turns (confining s) sound live predicate body fuel
  | define span name value =>
    refine (confining s value m sound live).bind ?_
    intro v m₁ sound₁ _ within
    refine (ended_define sound₁ name.text within).bind ?_
    intro done m₂ sound₂ _ _
    cases done with
    | true => exact .ok sound₂ trivial
    | false => exact ended_fail sound₂ _ _
  | assign span name value =>
    refine (confining s value m sound live).bind ?_
    intro v m₁ sound₁ _ within
    refine (ended_assign sound₁ s name.text within).bind ?_
    intro done m₂ sound₂ _ _
    cases done with
    | true => exact .ok sound₂ trivial
    | false => exact ended_fail sound₂ _ _
  | lambda span params doc body => exact ⟨sound, .refl s m.heap, live⟩
  | quote span inner => exact .ok sound trivial
  | ret span value =>
    change Ended s m ((if m.heap.inFunction s then eval s value >>= fun v => throw (.ret v)
      else fail span .returnOutside : Run Value) m)
    split
    · refine (confining s value m sound live).bind ?_
      intro v m₁ sound₁ _ within
      exact .error sound₁ within
    · exact ended_fail sound _ _

end Evaluator

theorem confining_node (fuel : Nat) (s : Scope) : Confining s (node fuel s) := by
  induction fuel generalizing s with
  | zero =>
    intro n m sound _
    exact ended_fail sound _ _
  | succ fuel ih =>
    intro n m sound live
    refine (ended_tick sound n.span).bind ?_
    intro _ m₁ sound₁ grown _
    exact ended_step ih sound₁ (Nat.lt_of_lt_of_le live grown) fuel n

theorem machine_liftFailure {α : Type} (x : Run α) (onReturn : Value → Except Failure α) (m : Machine) :
    Ending.machine (liftFailure x onReturn m) = Ending.machine (x m) := by
  unfold liftFailure
  match x m with
  | .ok a m' => rfl
  | .error (.failure failure) m' => rfl
  | .error (.ret value) m' =>
    dsimp only
    cases onReturn value <;> rfl

theorem machine_flow (s : Scope) (n : Node) (m : Machine) :
    Ending.machine (Machine.flow s n m) = Ending.machine (node m.fuel s n m) := by
  unfold Machine.flow
  rw [machine_liftFailure, map_eq_pure_bind, Sequencing.bind_apply]
  cases node m.fuel s n m <;> rfl

end Confinement

namespace Machine

open Budget (Ending)

/-- The machines that an owner can come to have. It may evaluate nodes, call functions, open
frames and bind names in any scope there is and with any values it was given; and it may
turn to another output or limit, or cancel, since nothing of this shows in the frames. -/
inductive Reachable : Machine → Prop
  | start (limit : Nat) (capacity : Option Nat) : Reachable (.start limit capacity)
  | flow {m : Machine} (s : Scope) (n : Node) (reachable : Reachable m) (live : s < m.heap.next) :
    Reachable (Ending.machine (flow s n m))
  | apply {m : Machine} (s : Scope) (span : Span) (function : Value) (args : List Value)
    (reachable : Reachable m) (live : s < m.heap.next) (known : function.Within m.heap.next)
    (within : ∀ arg ∈ args, arg.Within m.heap.next) :
    Reachable (Ending.machine (apply s span function args m))
  | callBuiltin {m : Machine} (frame : Scope) (function : Builtin) (args : List Value)
    (reachable : Reachable m) (live : frame < m.heap.next) (within : ∀ arg ∈ args, arg.Within m.heap.next) :
    Reachable (Ending.machine (callBuiltin frame function args m))
  | frame {m : Machine} (parent : Option Scope) (function : Option Unit) (reachable : Reachable m)
    (live : ∀ s ∈ parent, s < m.heap.next) : Reachable { m with heap := m.heap.add parent function }
  | define {m : Machine} (s : Scope) (name : String) (value : Value) (reachable : Reachable m)
    (within : value.Within m.heap.next) : Reachable { m with heap := (m.heap.define s name value).2 }
  | assign {m : Machine} (s : Scope) (name : String) (value : Value) (reachable : Reachable m)
    (within : value.Within m.heap.next) : Reachable { m with heap := (m.heap.assign s name value).2 }
  | other {m m' : Machine} (reachable : Reachable m) (same : m'.heap = m.heap) : Reachable m'

theorem wellScoped_start (limit : Nat) (capacity : Option Nat) :
    (start limit capacity).heap.WellScoped := by
  refine ⟨?_, Heap.holds_start limit capacity (fun _ => trivial) fun _ => trivial⟩
  intro t frame parent found above
  cases t with
  | zero =>
    cases found
    cases above
  | succ t => cases found

theorem Reachable.wellScoped {m : Machine} (reachable : m.Reachable) : m.heap.WellScoped := by
  induction reachable with
  | start limit capacity => exact wellScoped_start limit capacity
  | flow s n _ live sound =>
    rw [Confinement.machine_flow]
    exact (Confinement.confining_node _ s n _ sound live).sound
  | apply s span function args _ live known within sound =>
    unfold Machine.apply
    rw [Confinement.machine_liftFailure]
    exact (Confinement.ended_apply (Confinement.confining_node _) sound live span within known).sound
  | callBuiltin frame function args _ live within sound =>
    exact (Confinement.ended_call (Confinement.confining_node _) sound live function within).sound
  | frame parent function _ live sound => exact sound.add live function
  | define s name value _ within sound => exact sound.define s name within
  | assign s name value _ within sound => exact sound.assign s name within
  | other _ same sound => exact same ▸ sound

/-- Definitions never leak. However an evaluation in `s` ends, new names stand in `s` and in
the frames that it opened alone; and every way outward from any frame still ends. -/
theorem flow_confined {m : Machine} (reachable : m.Reachable) {s : Scope} (live : s < m.heap.next)
    (n : Node) :
    m.heap.Confined s (Ending.machine (flow s n m)).heap ∧
      ∀ t < (Ending.machine (flow s n m)).heap.next, (Ending.machine (flow s n m)).heap.Grounded t := by
  rw [Confinement.machine_flow]
  have ended := Confinement.confining_node m.fuel s n m reachable.wellScoped live
  exact ⟨ended.confined, fun t => ended.sound.ordered.grounded⟩

/-- A definition in an inner scope leaves the global names as they are. -/
theorem flow_confined_inner :
    let m : Machine := { start 10 none with heap := (start 10 none).heap.add (some globalScope) none }
    let place := Span.point .first
    let m' := Ending.machine (flow 1 (.define place ⟨"x", place⟩ (.atom place (.bool true))) m)
    (m'.heap.frame? 1).map (·.names) = some ["x"] ∧ m.heap.Confined 1 m'.heap ∧
      ∀ t < m'.heap.next, m'.heap.Grounded t := by
  intro m place m'
  have reachable : m.Reachable := by
    refine .frame (some globalScope) none (.start 10 none) ?_
    rintro _ ⟨⟩
    decide
  exact ⟨rfl, flow_confined reachable (by decide) _⟩

end Machine

end CheckedLisp
