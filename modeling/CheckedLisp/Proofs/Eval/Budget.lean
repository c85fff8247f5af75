import CheckedLisp.Eval.Run
import CheckedLisp.Proofs.Sequencing

/-! A run under a limit is compared with a run of the same code under a greater limit. Either both
end alike within the smaller limit, or the first is cut off one step beyond it and the second goes
on from there. The comparison survives sequencing and every way of handling exits, so it is proved
for whole evaluations part by part. -/
namespace CheckedLisp

/-- Exits that may carry an error code. -/
class Coded (ε : Type) where
  code? : ε → Option Code

instance : Coded Eval.Failure := ⟨fun failure => some failure.fault.code⟩

instance : Coded Eval.Exit where
  code?
  | .failure failure => some failure.fault.code
  | .ret _ => none

instance : Coded Builtin.Exit where
  code?
  | .fault fault => some fault.code
  | .nested failure => some failure.fault.code

namespace Machine

def withLimit (m : Machine) (limit : Nat) : Machine := { m with limit }

@[simp] theorem withLimit_steps (m : Machine) (limit : Nat) : (m.withLimit limit).steps = m.steps := rfl

@[simp] theorem withLimit_limit (m : Machine) (limit : Nat) : (m.withLimit limit).limit = limit := rfl

theorem withLimit_eq_self {m : Machine} {limit : Nat} (same : m.limit = limit) :
    m.withLimit limit = m := by
  subst same
  rfl

/-- Nothing takes back a step or an output, and the limit stays. -/
structure Later (m m' : Machine) : Prop where
  limit : m'.limit = m.limit
  steps : m.steps ≤ m'.steps
  output : ∃ more, m'.sink.written = m.sink.written ++ more

theorem Later.refl (m : Machine) : Later m m := ⟨rfl, Nat.le_refl _, .empty, by simp⟩

theorem Later.trans {a b c : Machine} (first : Later a b) (second : Later b c) : Later a c := by
  obtain ⟨more, extended⟩ := first.output
  obtain ⟨more', extended'⟩ := second.output
  refine ⟨second.limit.trans first.limit, Nat.le_trans first.steps second.steps, more ++ more', ?_⟩
  rw [extended', extended, ByteArray.append_assoc]

end Machine

namespace Budget

open Machine Sequencing

/-- How a computation ends: its result or exit, and the machine it leaves. -/
abbrev Ending (ε α : Type) := EStateM.Result ε Machine α

variable {ε ε' α β : Type}

namespace Ending

def machine : Ending ε α → Machine
  | .ok _ m | .error _ m => m

def withLimit (limit : Nat) : Ending ε α → Ending ε α
  | .ok a m => .ok a (m.withLimit limit)
  | .error e m => .error e (m.withLimit limit)

/-- The step limit was exceeded. -/
def Spent [Coded ε] : Ending ε α → Prop
  | .ok _ _ => False
  | .error e _ => Coded.code? e = some .stepLimit

theorem withLimit_eq_self {r : Ending ε α} {limit : Nat} (same : r.machine.limit = limit) :
    r.withLimit limit = r := by
  cases r with
  | ok a m => exact congrArg _ (Machine.withLimit_eq_self same)
  | error e m => exact congrArg _ (Machine.withLimit_eq_self same)

theorem withLimit_withLimit (r : Ending ε α) (limit limit' : Nat) :
    (r.withLimit limit).withLimit limit' = r.withLimit limit' := by
  cases r <;> rfl

theorem machine_withLimit (r : Ending ε α) (limit : Nat) :
    (r.withLimit limit).machine = r.machine.withLimit limit := by
  cases r <;> rfl

/-- Turns an exit into a result or into an exit of another kind. -/
def handled (handle : ε → Except ε' α) : Ending ε α → Ending ε' α
  | .ok a m => .ok a m
  | .error e m =>
    match handle e with
    | .ok a => .ok a m
    | .error e' => .error e' m

theorem machine_handled (handle : ε → Except ε' α) (r : Ending ε α) :
    (r.handled handle).machine = r.machine := by
  cases r with
  | ok a m => rfl
  | error e m =>
    simp only [handled]
    cases handle e <;> rfl

theorem withLimit_handled (handle : ε → Except ε' α) (r : Ending ε α) (limit : Nat) :
    (r.handled handle).withLimit limit = (r.withLimit limit).handled handle := by
  cases r with
  | ok a m => rfl
  | error e m =>
    simp only [handled, withLimit]
    cases handle e <;> rfl

end Ending

/-- What the end of a function makes of an exit. -/
def caught : Eval.Exit → Except Eval.Exit Value
  | .ret value => .ok value
  | .failure failure => .error (.failure failure)

/-- What a call of `eval` makes of an exit of the quoted code. -/
def nested : Eval.Exit → Except Builtin.Exit Value
  | .ret value => .ok value
  | .failure failure => .error (.nested failure)

/-- What the end of a program makes of an exit. -/
def lifted (onReturn : Value → Except Eval.Failure α) : Eval.Exit → Except Eval.Failure α
  | .ret value => onReturn value
  | .failure failure => .error failure

theorem catchReturn_eq_handled (x : Run Value) (m : Machine) :
    Eval.catchReturn x m = Ending.handled caught (x m) := by
  unfold Eval.catchReturn Ending.handled
  rcases x m with _ | ⟨_ | _, _⟩ <;> rfl

theorem evaluated_eq_handled (x : Run Value) (m : Machine) :
    Builtin.evaluated x m = Ending.handled nested (x m) := by
  unfold Builtin.evaluated Ending.handled
  rcases x m with _ | ⟨_ | _, _⟩ <;> rfl

theorem liftFailure_eq_handled (x : Run α) (onReturn : Value → Except Eval.Failure α) (m : Machine) :
    Eval.liftFailure x onReturn m = Ending.handled (lifted onReturn) (x m) := by
  unfold Eval.liftFailure Ending.handled
  rcases x m with _ | ⟨_ | value, _⟩
  · rfl
  · rfl
  · dsimp only [lifted]
    cases onReturn value <;> rfl

/-- An ending under `limit` beside that of the same code under `limit'`, which is no less. -/
inductive Matches [Coded ε] (limit limit' : Nat) : Ending ε α → Ending ε α → Prop
  | same {r : Ending ε α} (unspent : ¬ r.Spent) (within : r.machine.steps ≤ limit) :
    Matches limit limit' r (r.withLimit limit')
  | cut {r r' : Ending ε α} (spent : r.Spent) (counted : r.machine.steps = limit + 1)
    (tight : limit = limit' → r' = r)
    (beyond : limit < limit' → limit < r'.machine.steps ∧
      ∃ more, r'.machine.sink.written = r.machine.sink.written ++ more) :
    Matches limit limit' r r'

/-- Two computations that match from every machine, as long as either fuel covers the steps
that its limit leaves. Giving a result takes the first at least `cost` steps. -/
structure Paced [Coded ε] (cost fuel fuel' : Nat) (x x' : EStateM ε Machine α) : Prop where
  grows : ∀ m, Later m (Ending.machine (x m))
  grows' : ∀ m, Later m (Ending.machine (x' m))
  pays : ∀ m a m', x m = .ok a m' → m.steps + cost ≤ m'.steps
  related : ∀ m limit', m.limit ≤ limit' → m.steps ≤ m.limit → m.limit < fuel + m.steps →
    limit' < fuel' + m.steps → Matches m.limit limit' (x m) (x' (m.withLimit limit'))

theorem steps_le_of_ok {x : EStateM ε Machine α} (grows : ∀ m, Later m (Ending.machine (x m)))
    (m : Machine) (a : α) (m' : Machine) (ran : x m = .ok a m') : m.steps ≤ m'.steps := by
  have grown := (grows m).steps
  rw [ran] at grown
  exact grown

theorem later_bind {x : EStateM ε Machine α} {next : α → EStateM ε Machine β}
    (first : ∀ m, Later m (Ending.machine (x m))) (second : ∀ a m, Later m (Ending.machine (next a m)))
    (m : Machine) : Later m (Ending.machine ((x >>= next) m)) := by
  have grown := first m
  rw [bind_apply]
  cases run : x m with
  | ok a m₁ =>
    rw [run] at grown
    exact grown.trans (second a m₁)
  | error e m₁ =>
    rw [run] at grown
    exact grown

section

variable [Coded ε] [Coded ε'] {fuel fuel' : Nat}

theorem Matches.counted_of_spent {r r' : Ending ε α} {limit limit' : Nat}
    (matched : Matches limit limit' r r') (spent : r.Spent) : r.machine.steps = limit + 1 := by
  cases matched with
  | same unspent => exact absurd spent unspent
  | cut _ counted => exact counted

theorem Matches.within_of_unspent {r r' : Ending ε α} {limit limit' : Nat}
    (matched : Matches limit limit' r r') (unspent : ¬ r.Spent) : r.machine.steps ≤ limit := by
  cases matched with
  | same _ within => exact within
  | cut spent => exact absurd spent unspent

theorem Matches.eq_of_limit {r r' : Ending ε α} {limit : Nat} (matched : Matches limit limit r r')
    (same : r.machine.limit = limit) : r' = r := by
  cases matched with
  | same => exact Ending.withLimit_eq_self same
  | cut _ _ tight _ => exact tight rfl

/-- The second part may count on the steps that the first one took. Where only the run under the
greater limit goes on, whatever it does is later. -/
theorem Paced.bind_paying {x x' : EStateM ε Machine α} {next next' : α → EStateM ε Machine β}
    {cost firstFuel firstFuel' nextFuel nextFuel' : Nat}
    (first : Paced cost firstFuel firstFuel' x x')
    (second : ∀ a, Paced 0 nextFuel nextFuel' (next a) (next' a))
    (enough : fuel ≤ firstFuel ∧ fuel ≤ nextFuel + cost)
    (enough' : fuel' ≤ firstFuel' ∧ fuel' ≤ nextFuel' + cost) :
    Paced cost fuel fuel' (x >>= next) (x' >>= next') := by
  refine ⟨later_bind first.grows fun a => (second a).grows,
    later_bind first.grows' fun a => (second a).grows', ?_, ?_⟩
  · intro m b m₂ ran
    obtain ⟨a, m₁, here, there⟩ := bind_eq_ok.1 ran
    exact Nat.le_trans (first.pays m a m₁ here) ((second a).pays m₁ b m₂ there)
  intro m limit' below within covers covers'
  have grown := first.grows m
  have matched := first.related m limit' below within (by omega) (by omega)
  rw [bind_apply, bind_apply]
  generalize x' (m.withLimit limit') = r' at matched
  cases ran : x m with
  | ok a m₁ =>
    have paid := first.pays m a m₁ ran
    rw [ran] at matched grown
    have kept : m₁.limit = m.limit := grown.limit
    cases matched with
    | same unspent inside =>
      have inside' : m₁.steps ≤ m.limit := inside
      have after := (second a).related m₁ limit' (by omega) (by omega) (by omega) (by omega)
      rw [kept] at after
      exact after
    | cut spent => exact spent.elim
  | error e m₁ =>
    rw [ran] at matched
    cases matched with
    | same unspent inside => exact .same unspent inside
    | cut spent counted tight beyond =>
      refine .cut spent counted ?_ ?_
      · intro equal
        rw [tight equal]
      · intro smaller
        cases r' with
        | ok a m₁' =>
          have onward := (second a).grows' m₁'
          obtain ⟨counted', more, extended⟩ := beyond smaller
          obtain ⟨more', extended'⟩ := onward.output
          refine ⟨Nat.lt_of_lt_of_le counted' onward.steps, more ++ more', ?_⟩
          rw [extended', ← ByteArray.append_assoc]
          exact congrArg (· ++ more') extended
        | error e' m₁' => exact beyond smaller

theorem Paced.free {cost : Nat} {x x' : EStateM ε Machine α} (paced : Paced cost fuel fuel' x x') :
    Paced 0 fuel fuel' x x' := by
  refine ⟨paced.grows, paced.grows', ?_, paced.related⟩
  intro m a m' ran
  exact Nat.le_trans (Nat.le_add_right _ _) (paced.pays m a m' ran)

theorem Paced.bind {cost : Nat} {x x' : EStateM ε Machine α} {next next' : α → EStateM ε Machine β}
    (first : Paced cost fuel fuel' x x') (second : ∀ a, Paced 0 fuel fuel' (next a) (next' a)) :
    Paced 0 fuel fuel' (x >>= next) (x' >>= next') :=
  first.free.bind_paying second ⟨Nat.le_refl _, Nat.le_refl _⟩ ⟨Nat.le_refl _, Nat.le_refl _⟩

theorem Paced.weaken {cost less less' : Nat} {x x' : EStateM ε Machine α}
    (paced : Paced cost fuel fuel' x x') (le : less ≤ fuel) (le' : less' ≤ fuel') :
    Paced cost less less' x x' := by
  refine ⟨paced.grows, paced.grows', paced.pays, ?_⟩
  intro m limit' below within covers covers'
  exact paced.related m limit' below within (by omega) (by omega)

/-- Without fuel, no machine has steps left. -/
theorem Paced.starved {cost : Nat} {x x' : EStateM ε Machine α} (grows : ∀ m, Later m (Ending.machine (x m)))
    (grows' : ∀ m, Later m (Ending.machine (x' m)))
    (pays : ∀ m a m', x m = .ok a m' → m.steps + cost ≤ m'.steps) (none : fuel = 0 ∨ fuel' = 0) :
    Paced cost fuel fuel' x x' := by
  refine ⟨grows, grows', pays, ?_⟩
  intro m limit' below within covers covers'
  omega

/-- Induction on two fuels at once. Equal fuels come first: they show that either side grows,
whatever the fuel of the other. -/
theorem paced_of_succ {ι : Type} {cost : Nat} (cover cover' : Nat → Nat)
    (x x' : Nat → ι → EStateM ε Machine α) (zero : cover 0 = 0) (zero' : cover' 0 = 0)
    (start : ∀ i, Paced cost 0 0 (x 0 i) (x' 0 i))
    (succ : ∀ k k', (∀ i, Paced cost (cover k) (cover' k') (x k i) (x' k' i)) →
      ∀ i, Paced cost (cover (k + 1)) (cover' (k' + 1)) (x (k + 1) i) (x' (k' + 1) i))
    (k k' : Nat) (i : ι) : Paced cost (cover k) (cover' k') (x k i) (x' k' i) := by
  have equal : ∀ k i, Paced cost (cover k) (cover' k) (x k i) (x' k i) := by
    intro k
    induction k with
    | zero =>
      rw [zero, zero']
      exact start
    | succ k ih => exact succ k k ih
  induction k generalizing k' i with
  | zero => exact .starved (equal 0 i).grows (equal k' i).grows' (equal 0 i).pays (.inl zero)
  | succ k ih =>
    cases k' with
    | zero => exact .starved (equal (k + 1) i).grows (equal 0 i).grows' (equal (k + 1) i).pays (.inr zero')
    | succ k' => exact succ k k' (fun i => ih k' i) i

/-- A computation that takes no step and does not look at the limit. -/
structure Plain (x : EStateM ε Machine α) : Prop where
  grows : ∀ m, Later m (Ending.machine (x m))
  steps : ∀ m, (Ending.machine (x m)).steps = m.steps
  unspent : ∀ m, ¬ Ending.Spent (x m)
  withLimit : ∀ m limit, x (m.withLimit limit) = Ending.withLimit limit (x m)

theorem Plain.paced {x : EStateM ε Machine α} (plain : Plain x) : Paced 0 fuel fuel' x x := by
  refine ⟨plain.grows, plain.grows, steps_le_of_ok plain.grows, ?_⟩
  intro m limit' below within covers covers'
  rw [plain.withLimit]
  exact .same (plain.unspent m) (plain.steps m ▸ within)

theorem plain_pure (a : α) : Plain (pure a : EStateM ε Machine α) :=
  ⟨Later.refl, fun _ => rfl, fun _ => id, fun _ _ => rfl⟩

theorem plain_throw {e : ε} (other : Coded.code? e ≠ some .stepLimit) :
    Plain (throw e : EStateM ε Machine α) :=
  ⟨Later.refl, fun _ => rfl, fun _ => other, fun _ _ => rfl⟩

/-- Reading anything but the limit. -/
theorem Paced.reading (view : Machine → α) (next next' : α → EStateM ε Machine β)
    (blind : ∀ m limit, view (m.withLimit limit) = view m)
    (second : ∀ a, Paced 0 fuel fuel' (next a) (next' a)) :
    Paced 0 fuel fuel' (do next (view (← get))) (do next' (view (← get))) := by
  have read : Plain (fun m => .ok (view m) m : EStateM ε Machine α) := by
    refine ⟨Later.refl, fun _ => rfl, fun _ => id, ?_⟩
    intro m limit
    simp [Ending.withLimit, blind]
  exact read.paced.bind second

/-- Handling that neither hides nor invents an exceeded step limit. -/
def Honest (handle : ε → Except ε' α) : Prop :=
  ∀ e, match handle e with
    | .ok _ => Coded.code? e ≠ some .stepLimit
    | .error e' => Coded.code? e' = some .stepLimit ↔ Coded.code? e = some .stepLimit

theorem spent_handled {handle : ε → Except ε' α} (honest : Honest handle) (r : Ending ε α) :
    (r.handled handle).Spent ↔ r.Spent := by
  cases r with
  | ok a m => rfl
  | error e m =>
    have kept := honest e
    revert kept
    simp only [Ending.handled]
    cases handle e with
    | ok a => exact fun other => ⟨False.elim, other⟩
    | error e' => exact id

theorem Matches.handled {handle : ε → Except ε' α} (honest : Honest handle) {limit limit' : Nat}
    {r r' : Ending ε α} (matched : Matches limit limit' r r') :
    Matches limit limit' (r.handled handle) (r'.handled handle) := by
  cases matched with
  | same unspent within =>
    rw [← Ending.withLimit_handled]
    refine .same ?_ ?_
    · rwa [spent_handled honest]
    · rwa [Ending.machine_handled]
  | cut spent counted tight beyond =>
    refine .cut ?_ ?_ ?_ ?_
    · rwa [spent_handled honest]
    · rwa [Ending.machine_handled]
    · intro equal
      rw [tight equal]
    · simpa only [Ending.machine_handled] using beyond

theorem Paced.handled {cost : Nat} {x x' : EStateM ε Machine α} (paced : Paced cost fuel fuel' x x')
    (guarded : EStateM ε Machine α → EStateM ε' Machine α) (handle : ε → Except ε' α)
    (same : ∀ x m, guarded x m = Ending.handled handle (x m)) (honest : Honest handle) :
    Paced 0 fuel fuel' (guarded x) (guarded x') := by
  have grows : ∀ m, Later m (Ending.machine (guarded x m)) := by
    intro m
    rw [same, Ending.machine_handled]
    exact paced.grows m
  refine ⟨grows, ?_, steps_le_of_ok grows, ?_⟩
  · intro m
    rw [same, Ending.machine_handled]
    exact paced.grows' m
  · intro m limit' below within covers covers'
    rw [same, same]
    exact (paced.related m limit' below within covers covers').handled honest

end

end Budget

end CheckedLisp
