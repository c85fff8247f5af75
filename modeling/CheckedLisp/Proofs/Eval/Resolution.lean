import CheckedLisp.Proofs.Eval.Definition
import CheckedLisp.Proofs.Eval.ResolvedValue

/-! An evaluation comes upon an unbound name only in code that does not resolve it. A lambda may use
the name that it is being defined as: its closure resolves that name from its definition on, and
nothing calls it before. -/
namespace CheckedLisp

namespace Resolution

open Budget (Ending)
open Confinement
open Definition
open Eval
open Sequencing

variable {x : String}

/-- The fault is not that `x` is unbound. -/
def Avoids (x : String) (fault : Eval.Fault) : Prop :=
  fault ≠ .undefinedName x ∧ fault ≠ .undefinedTarget x

/-- Results and exits, and what it means that they resolve a name. -/
class Resolvable (α : Type) where
  Resolves : String → Heap Value Unit → α → Prop

instance : Resolvable Value := ⟨Value.Resolves⟩

instance : Resolvable (List Value) := ⟨fun x h values => ∀ value ∈ values, value.Resolves x h⟩

instance : Resolvable Bool := ⟨fun _ _ _ => True⟩

instance : Resolvable Unit := ⟨fun _ _ _ => True⟩

instance : Resolvable Exit where
  Resolves x h
  | .ret value => value.Resolves x h
  | .failure failure => Avoids x failure.fault

variable {α β : Type} [Resolvable α] [Resolvable β]

/-- What is given, be it a result or an exit, resolves the name in the machine that is left. -/
def GivenResolves (x : String) : Ending Exit α → Prop
  | .ok a m => Resolvable.Resolves x m.heap a
  | .error e m => Resolvable.Resolves x m.heap e

/-- How a computation ends that never finds `x` unbound. -/
structure Safe (x : String) (r : Ending Exit α) : Prop where
  resolved : r.machine.heap.Resolved x
  given : GivenResolves x r

variable {s : Scope} {m m' : Machine} {bound : Bool}

theorem Safe.bind {y : Run α} {next : α → Run β} (first : Safe x (y m))
    (second : ∀ a m', y m = .ok a m' → m'.heap.Resolved x → Resolvable.Resolves x m'.heap a →
      Safe x (next a m')) : Safe x ((y >>= next) m) := by
  rw [bind_apply]
  cases run : y m with
  | ok a m' =>
    rw [run] at first
    exact second a m' run first.resolved first.given
  | error e m' =>
    rw [run] at first
    exact ⟨first.resolved, first.given⟩

/-- Work in a frame that was just opened. -/
theorem safe_enter {parent : Scope} {function : Option Unit} {next : Scope → Run α}
    (second : Safe x (next m.heap.next { m with heap := m.heap.add (some parent) function })) :
    Safe x ((enter parent function >>= next) m) :=
  second

theorem safe_error {failure : Failure} (resolved : m.heap.Resolved x) (avoids : Avoids x failure.fault) :
    Safe x (.error (.failure failure) m : Ending Exit α) :=
  ⟨resolved, avoids⟩

theorem safe_fail (resolved : m.heap.Resolved x) (span : Span) {fault : Eval.Fault} (avoids : Avoids x fault) :
    Safe x ((fail span fault : Run α) m) :=
  safe_error resolved avoids

theorem Safe.catchReturn {y : Run Value} (safe : Safe x (y m)) : Safe x (catchReturn y m) := by
  unfold Eval.catchReturn
  match run : y m with
  | .ok value m' | .error (.failure failure) m' =>
    rw [run] at safe
    exact safe
  | .error (.ret value) m' =>
    rw [run] at safe
    exact ⟨safe.resolved, safe.given⟩

theorem safe_tick (resolved : m.heap.Resolved x) (span : Span) : Safe x (tick span m) := by
  unfold tick
  split
  · exact safe_error resolved (by simp [Avoids])
  · split
    · exact safe_error resolved (by simp [Avoids])
    · exact ⟨resolved, trivial⟩

theorem safe_truth (resolved : m.heap.Resolved x) (span : Span) (value : Value) :
    Safe x (truth span value m) := by
  cases value with
  | bool b => exact ⟨resolved, trivial⟩
  | _ => exact safe_fail resolved span (by simp [Avoids])

/-- Code with `bound` before it may be evaluated in `s`. -/
structure Ready (x : String) (s : Scope) (bound : Bool) (h : Heap Value Unit) : Prop where
  resolved : h.Resolved x
  live : s < h.next
  seen : bound = true → h.Sees s x

theorem safe_atom (ready : Ready x s bound m.heap) (span : Span) (a : Atom)
    (resolves : Node.resolves x (.atom span a) bound = true) : Safe x (atom s span a m) := by
  cases a with
  | bool b => exact ⟨ready.resolved, trivial⟩
  | string text => exact ⟨ready.resolved, trivial⟩
  | int digits =>
    simp only [atom]
    cases (Decimal.integer? digits).bind word? with
    | some n => exact ⟨ready.resolved, trivial⟩
    | none => exact safe_fail ready.resolved span (by simp [Avoids])
  | float digits =>
    simp only [atom]
    cases (Decimal.float? digits).filter Float.isFinite with
    | some n => exact ⟨ready.resolved, trivial⟩
    | none => exact safe_fail ready.resolved span (by simp [Avoids])
  | symbol used =>
    simp only [atom, Eval.lookup, bind_apply]
    cases found : m.heap.lookup s used with
    | some value => exact ⟨ready.resolved, ready.resolved.lookup found⟩
    | none =>
      have other : used ≠ x := by
        rintro rfl
        simp only [Node.resolves, bne_self_eq_false, Bool.or_false] at resolves
        have sees := (Heap.sees_iff_lookup _ _ _).1 (ready.seen resolves)
        rw [found] at sees
        cases sees
      refine safe_fail ready.resolved span ⟨?_, by simp⟩
      intro same
      exact other (Fault.undefinedName.inj same)

/-- Evaluation that never finds `x` unbound in code that resolves it. -/
def Resolving (x : String) (s : Scope) (eval : Node → Run Value) : Prop :=
  ∀ n m bound, Ready x s bound m.heap → n.resolves x bound = true → Safe x (eval n m)

/-- A computation in `s` keeps `s` and what it sees. -/
theorem Ready.kept {γ : Type} [Scoped γ] {y : Run γ} {a : γ} (ready : Ready x s bound m.heap)
    (ended : Ended s m (y m)) (done : y m = .ok a m') (resolved' : m'.heap.Resolved x) :
    Ready x s bound m'.heap := by
  rw [done] at ended
  have live' : s < m'.heap.next := Nat.lt_of_lt_of_le ready.live ended.confined.next
  refine ⟨resolved', live', ?_⟩
  intro isBound
  exact ended.confined.sees ready.resolved.sound.ordered ready.live (ready.seen isBound)

section Parts

variable {fuel : Nat}

/-- After a node, what it surely binds is bound too. -/
theorem Ready.after {n : Node} {v : Value} (ready : Ready x s bound m.heap)
    (done : node fuel s n m = .ok v m') (resolved' : m'.heap.Resolved x) :
    Ready x s (bound || n.surelyBinds (some x)) m'.heap := by
  have kept := ready.kept (confining_node fuel s n m ready.resolved.sound ready.live) done resolved'
  refine ⟨resolved', kept.live, ?_⟩
  intro isBound
  rcases Bool.or_eq_true_iff.1 isBound with before | surely
  · exact kept.seen before
  · obtain ⟨_, ⟨⟩, sees⟩ :=
      defining_node fuel s n m v m' ready.resolved.sound ready.live done (some x) surely
    exact sees

variable (resolving : ∀ s, Resolving x s (node fuel s))

include resolving

/-- A node and what follows it. -/
theorem safe_then {n : Node} {next : Value → Run β} (ready : Ready x s bound m.heap)
    (resolves : n.resolves x bound = true)
    (second : ∀ v m', Ready x s (bound || n.surelyBinds (some x)) m'.heap → v.Within m'.heap.next →
      v.Resolves x m'.heap → Safe x (next v m')) : Safe x ((node fuel s n >>= next) m) := by
  apply (resolving s n m bound ready resolves).bind
  intro v m' done resolved' given
  have ended := confining_node fuel s n m ready.resolved.sound ready.live
  obtain ⟨_, _, within⟩ := ended.next done ready.live
  exact second v m' (ready.after done resolved') within given

theorem safe_sequence (ready : Ready x s bound m.heap) (forms : List Node) {last : Value}
    (known : last.Resolves x m.heap) (resolves : Node.resolvesAll x forms bound = true) :
    Safe x (sequence (node fuel s) last forms m) := by
  induction forms generalizing last m bound with
  | nil => exact ⟨ready.resolved, known⟩
  | cons form forms ih =>
    simp only [Node.resolvesAll, Bool.and_eq_true] at resolves
    apply safe_then resolving ready resolves.1
    intro v m' ready' _ known'
    exact ih ready' known' resolves.2

theorem safe_collect (ready : Ready x s bound m.heap) (forms : List Node)
    (resolves : Node.resolvesAll x forms bound = true) : Safe x (collect (node fuel s) forms m) := by
  induction forms generalizing m bound with
  | nil => exact ⟨ready.resolved, List.forall_mem_nil _⟩
  | cons form forms ih =>
    simp only [Node.resolvesAll, Bool.and_eq_true] at resolves
    apply safe_then resolving ready resolves.1
    intro v m₁ ready₁ within₁ known₁
    apply (ih ready₁ resolves.2).bind
    intro values m₂ collected resolved₂ known₂
    have ended := ended_collect (confining_node fuel s) ready₁.resolved.sound ready₁.live forms
    rw [collected] at ended
    have known : v.Resolves x m₂.heap :=
      known₁.later ended.confined ready₁.resolved.sound.ordered within₁
    exact ⟨resolved₂, List.forall_mem_cons.2 ⟨known, known₂⟩⟩

theorem safe_choose (ready : Ready x s bound m.heap) (otherwise : Node) (branches : List (Node × Node))
    (resolves : Node.resolvesCases x (otherwise.resolves x) branches bound = true) :
    Safe x (choose (node fuel s) otherwise branches m) := by
  induction branches generalizing m bound with
  | nil => exact resolving s otherwise m bound ready resolves
  | cons first rest ih =>
    obtain ⟨predicate, body⟩ := first
    simp only [Node.resolvesCases, Bool.and_eq_true] at resolves
    obtain ⟨⟨resolvesTest, resolvesBody⟩, resolvesRest⟩ := resolves
    apply safe_then resolving ready resolvesTest
    intro value m₁ ready₁ _ _
    apply (safe_truth ready₁.resolved predicate.span value).bind
    intro holds m₂ judged _ _
    cases truth_eq_ok judged
    cases holds with
    | true => exact resolving s body m₁ _ ready₁ resolvesBody
    | false => exact ih ready₁ resolvesRest

/-- What the predicate binds helps the body alone: each turn starts as the first one did. -/
theorem safe_turns (ready : Ready x s bound m.heap) (predicate body : Node) (count : Nat)
    (resolvesTest : predicate.resolves x bound = true)
    (resolvesBody : body.resolves x (bound || predicate.surelyBinds (some x)) = true) :
    Safe x (turns (node fuel s) predicate body count m) := by
  induction count generalizing m with
  | zero => exact safe_fail ready.resolved _ (by simp [Avoids])
  | succ count ih =>
    apply (resolving s predicate m bound ready resolvesTest).bind
    intro value m₁ tested resolved₁ _
    have ready₁ := ready.kept (confining_node fuel s predicate m ready.resolved.sound ready.live) tested resolved₁
    apply (safe_truth resolved₁ predicate.span value).bind
    intro holds m₂ judged _ _
    cases truth_eq_ok judged
    cases holds with
    | true =>
      apply (resolving s body m₁ _ (ready.after tested resolved₁) resolvesBody).bind
      intro _ m₃ turned resolved₃ _
      exact ih (ready₁.kept (confining_node fuel s body m₁ resolved₁.sound ready₁.live) turned resolved₃)
    | false => exact ⟨resolved₁, trivial⟩

end Parts

theorem safe_define (resolved : m.heap.Resolved x) (name : String) {value : Value}
    (within : value.Within m.heap.next) (given : value.Resolves x m.heap) : Safe x (define s name value m) := by
  have given' := given.later (Heap.confined_define m.heap s name value) resolved.sound.ordered within
  exact ⟨resolved.define name within given', trivial⟩

/-- A call binds its parameters, and then the frame of the call sees them. -/
theorem safe_bindAll (resolved : m.heap.Resolved x) (live : s < m.heap.next) (params : List Name)
    {args : List Value} (same : params.length = args.length) (within : ∀ arg ∈ args, arg.Within m.heap.next)
    (given : ∀ arg ∈ args, arg.Resolves x m.heap) :
    Safe x (bindAll s params args m) ∧ ∀ m', bindAll s params args m = .ok () m' →
      params.any (·.text == x) = true → m'.heap.Sees s x := by
  induction params generalizing args m with
  | nil => exact ⟨⟨resolved, trivial⟩, fun _ _ never => by cases never⟩
  | cons param params ih =>
    obtain ⟨arg, args, rfl⟩ := List.exists_cons_of_length_eq_add_one same.symm
    obtain ⟨withinArg, withinArgs⟩ := List.forall_mem_cons.1 within
    obtain ⟨givenArg, givenArgs⟩ := List.forall_mem_cons.1 given
    have ordered := resolved.sound.ordered
    have confined := Heap.confined_define m.heap s param.text arg
    have first : Safe x (define s param.text arg m) := safe_define resolved param.text withinArg givenArg
    let m₁ : Machine := { m with heap := (m.heap.define s param.text arg).2 }
    have live₁ : s < m₁.heap.next := Nat.lt_of_lt_of_le live confined.next
    have within₁ : ∀ arg ∈ args, arg.Within m₁.heap.next :=
      fun arg member => (withinArgs arg member).mono confined.next
    have given₁ : ∀ arg ∈ args, arg.Resolves x m₁.heap :=
      fun arg member => (givenArgs arg member).later confined ordered (withinArgs arg member)
    obtain ⟨safe, binds⟩ := ih (m := m₁) first.resolved live₁ (Nat.succ.inj same) within₁ given₁
    refine ⟨safe, ?_⟩
    intro m' done isParam
    rw [List.any_cons, Bool.or_eq_true, beq_iff_eq] at isParam
    rcases isParam with rfl | later
    · have sees : m₁.heap.Sees s param.text := Heap.sees_define ordered live param.text arg
      have ended : Ended s m₁ (bindAll s params args m₁) := ended_bindAll first.resolved.sound params within₁
      rw [show bindAll s params args m₁ = .ok () m' from done] at ended
      exact ended.confined.sees first.resolved.sound.ordered live₁ sees
    · exact binds m' done later

section Evaluator

variable {fuel : Nat} (resolving : ∀ s, Resolving x s (node fuel s))

include resolving

theorem safe_lambda (resolved : m.heap.Resolved x) (span : Span) {args : List Value}
    (within : ∀ arg ∈ args, arg.Within m.heap.next) (given : ∀ arg ∈ args, arg.Resolves x m.heap)
    {closure : Closure} (live : closure.scope < m.heap.next)
    (known : (Value.lambda closure).Resolves x m.heap) :
    Safe x (Eval.apply (node fuel) s span args (.lambda closure) m) := by
  simp only [Eval.apply]
  split
  · next same =>
    obtain ⟨bound, seen, resolves⟩ := known
    have ordered := resolved.sound.ordered
    let m₁ : Machine := { m with heap := m.heap.add (some closure.scope) (some ()) }
    have confined : m.heap.Confined closure.scope m₁.heap := Heap.confined_add _ live (some ())
    have resolved₁ : m₁.heap.Resolved x := resolved.child live (some ())
    have live₁ : m.heap.next < m₁.heap.next := Heap.lt_next_add _ _ _
    have within₁ : ∀ arg ∈ args, arg.Within m₁.heap.next :=
      fun arg member => (within arg member).mono confined.next
    have given₁ : ∀ arg ∈ args, arg.Resolves x m₁.heap :=
      fun arg member => (given arg member).later confined ordered (within arg member)
    obtain ⟨safe, binds⟩ := safe_bindAll resolved₁ live₁ closure.params same within₁ given₁
    have opened : Ready x m.heap.next bound m₁.heap := by
      refine ⟨resolved₁, live₁, ?_⟩
      intro isBound
      exact (Heap.sees_add_next ordered live (some ()) x).2 (seen isBound)
    apply safe_enter
    apply safe.bind
    intro _ m₂ done resolved₂ _
    have kept := opened.kept (ended_bindAll resolved₁.sound closure.params within₁) done resolved₂
    apply Safe.catchReturn
    refine resolving _ closure.body m₂ _ ⟨resolved₂, kept.live, ?_⟩ resolves
    intro isBound
    rcases Bool.or_eq_true_iff.1 isBound with before | isParam
    · exact kept.seen before
    · exact binds m₂ done isParam
  · exact safe_fail resolved span (by simp [Avoids])

theorem safe_apply (resolved : m.heap.Resolved x) (live : s < m.heap.next) (span : Span) {args : List Value}
    (within : ∀ arg ∈ args, arg.Within m.heap.next) (given : ∀ arg ∈ args, arg.Resolves x m.heap)
    {function : Value} (inside : function.Within m.heap.next) (known : function.Resolves x m.heap) :
    Safe x (Eval.apply (node fuel) s span args function m) := by
  cases function with
  | lambda closure => exact safe_lambda resolving resolved span within given inside known
  | builtin function =>
    let m₁ : Machine := { m with heap := m.heap.add (some s) (some ()) }
    have resolved₁ : m₁.heap.Resolved x := resolved.child live (some ())
    have given₁ : ∀ arg ∈ args, arg.Resolves x m₁.heap := fun arg member =>
      (given arg member).later (Heap.confined_add s live _) resolved.sound.ordered (within arg member)
    have called : Builtin.Called (node fuel) m.heap.next args m₁
      (function.call (node fuel) m.heap.next args m₁) := Builtin.called function
    apply safe_enter
    change Safe x (calling span function (function.call (node fuel) m.heap.next args) m₁)
    unfold calling
    generalize function.call (node fuel) m.heap.next args m₁ = r at called
    cases called with
    | given same made =>
      have known := made _ (Value.hereditary_resolves x m₁.heap) given₁
      rw [← same] at resolved₁ known
      exact ⟨resolved₁, known⟩
    | refused same =>
      rw [← same] at resolved₁
      exact safe_error resolved₁ (by simp [Avoids])
    | @quoted inner only =>
      have never : (Value.quoted inner).Resolves x m₁.heap := given₁ _ (by simp [only])
      exact never.elim
  | _ => exact safe_fail resolved span (by simp [Avoids])

end Evaluator

/-- Evaluating a lambda fails for want of steps, or gives a closure and leaves the frames. -/
theorem node_lambda_cases (fuel : Nat) (s : Scope) (span : Span) (params : List Name) (doc : Option String)
    (body : Node) (m : Machine) :
    (∃ failure m', node fuel s (.lambda span params doc body) m = .error (.failure failure) m' ∧
      m'.heap = m.heap ∧ Avoids x failure.fault) ∨
    ∃ serial m', node fuel s (.lambda span params doc body) m = .ok (.lambda ⟨serial, params, body, s⟩) m' ∧
      m'.heap = m.heap := by
  cases fuel with
  | zero => exact .inl ⟨_, m, rfl, rfl, by simp [Avoids]⟩
  | succ fuel =>
    rw [node, bind_apply, tick]
    split
    · next failed =>
      split at failed
      · cases failed
      · split at failed
        · cases failed
        · cases failed
          exact .inr ⟨_, _, rfl, rfl⟩
    · next failed =>
      split at failed
      · cases failed
        exact .inl ⟨_, _, rfl, rfl, by simp [Avoids]⟩
      · split at failed
        · cases failed
          exact .inl ⟨_, _, rfl, rfl, by simp [Avoids]⟩
        · cases failed

/-- The end of a definition. -/
theorem safe_defined {name : Name} {value : Value} (safe : Safe x (define s name.text value m)) :
    Safe x ((define s name.text value >>= fun done =>
      if done = true then pure .unit else fail name.span (.redefinedName name.text) : Run Value) m) := by
  apply safe.bind
  intro done m' _ resolved' _
  cases done with
  | true => exact ⟨resolved', trivial⟩
  | false => exact safe_fail resolved' name.span (by simp [Avoids])

/-- An assignment is refused only where its target is not in sight. -/
theorem not_sees_of_refused {h : Heap Value Unit} (ordered : h.Ordered) (live : s < h.next) {name : String}
    {value : Value} (refused : (h.assign s name value).1 = false) : ¬ h.Sees s name := by
  cases binder : h.binder? s name with
  | none =>
    rw [Heap.sees_iff_lookup, (Heap.binder?_eq_none_iff ordered live).1 binder]
    simp
  | some t =>
    simp only [Heap.assign, binder] at refused
    cases refused

section Evaluator

variable {fuel : Nat} (resolving : ∀ s, Resolving x s (node fuel s))

include resolving

/-- A closure may use the name that it is defined as: once that is defined, its scope sees it. -/
theorem safe_step (ready : Ready x s bound m.heap) (n : Node) (resolves : n.resolves x bound = true) :
    Safe x (step (node fuel) fuel s n m) := by
  have ordered := ready.resolved.sound.ordered
  cases n with
  | unit span => exact ⟨ready.resolved, trivial⟩
  | atom span a => exact safe_atom ready span a resolves
  | block span forms =>
    have inner : Ready x m.heap.next bound (m.heap.add (some s) none) := by
      refine ⟨ready.resolved.child ready.live none, Heap.lt_next_add _ _ _, ?_⟩
      intro isBound
      exact (Heap.sees_add_next ordered ready.live none x).2 (ready.seen isBound)
    apply safe_enter
    exact safe_sequence resolving inner forms trivial resolves
  | call span callee args =>
    simp only [Node.resolves, Bool.and_eq_true] at resolves
    apply safe_then resolving ready resolves.1
    intro function m₁ ready₁ within₁ known₁
    have ended := ended_collect (confining_node fuel s) ready₁.resolved.sound ready₁.live args
    apply (safe_collect resolving ready₁ args resolves.2).bind
    intro values m₂ collected resolved₂ given
    obtain ⟨_, live₂, within⟩ := ended.next collected ready₁.live
    rw [collected] at ended
    have known₂ : function.Resolves x m₂.heap :=
      known₁.later ended.confined ready₁.resolved.sound.ordered within₁
    exact safe_apply resolving resolved₂ live₂ span within given (within₁.mono ended.confined.next) known₂
  | conditional span branches otherwise => exact safe_choose resolving ready otherwise branches resolves
  | loop span predicate body =>
    simp only [Node.resolves, Bool.and_eq_true] at resolves
    exact safe_turns resolving ready predicate body fuel resolves.1 resolves.2
  | define span name value =>
    cases value with
    | lambda lambdaSpan params doc body =>
      simp only [step, bind_apply]
      rcases node_lambda_cases (x := x) fuel s lambdaSpan params doc body m with
        ⟨failure, m₁, failed, same, avoids⟩ | ⟨serial, m₁, closed, same⟩
      · rw [failed]
        exact ⟨same ▸ ready.resolved, avoids⟩
      · rw [closed]
        have resolved₁ : m₁.heap.Resolved x := same ▸ ready.resolved
        have live₁ : s < m₁.heap.next := same ▸ ready.live
        apply safe_defined
        refine ⟨resolved₁.define name.text live₁ ?_, trivial⟩
        refine ⟨bound || name.text == x, ?_, resolves⟩
        intro isBound
        rw [Bool.or_eq_true, beq_iff_eq] at isBound
        rcases isBound with before | rfl
        · have seen : m₁.heap.Sees s x := same ▸ ready.seen before
          exact (Heap.confined_define _ s _ _).sees resolved₁.sound.ordered live₁ seen
        · exact Heap.sees_define resolved₁.sound.ordered live₁ name.text _
    | _ =>
      change Node.resolves x _ (bound || false && name.text == x) = true at resolves
      rw [Bool.false_and, Bool.or_false] at resolves
      apply safe_then resolving ready resolves
      intro v m₁ ready₁ within₁ known₁
      exact safe_defined (safe_define ready₁.resolved name.text within₁ known₁)
  | assign span name value =>
    simp only [Node.resolves, Bool.and_eq_true] at resolves
    have ended := confining_node fuel s value m ready.resolved.sound ready.live
    apply (resolving s value m bound ready resolves.2).bind
    intro v m₁ evaluated resolved₁ known₁
    obtain ⟨_, live₁, within₁⟩ := ended.next evaluated ready.live
    have ready₁ := ready.kept ended evaluated resolved₁
    have assigned : Safe x (Eval.assign s name.text v m₁) :=
      ⟨resolved₁.assign name.text within₁ known₁, trivial⟩
    apply assigned.bind
    intro done m₂ changed resolved₂ _
    cases done with
    | true => exact ⟨resolved₂, trivial⟩
    | false =>
      refine safe_fail resolved₂ name.span ⟨by simp, ?_⟩
      intro same
      obtain rfl := Fault.undefinedTarget.inj same
      rw [bne_self_eq_false, Bool.or_false] at resolves
      have refused : (m₁.heap.assign s name.text v).1 = false := by
        rw [Eval.assign, modifyGet_apply] at changed
        injection changed
      exact not_sees_of_refused resolved₁.sound.ordered live₁ refused (ready₁.seen resolves.1)
  | lambda span params doc body =>
    exact ⟨ready.resolved, bound, ready.seen, resolves⟩
  | quote span inner => cases resolves
  | ret span value =>
    rw [Node.resolves] at resolves
    change Safe x ((if m.heap.inFunction s then node fuel s value >>= fun v => throw (.ret v)
      else fail span .returnOutside : Run Value) m)
    split
    · apply safe_then resolving ready resolves
      intro v m₁ ready₁ _ known₁
      exact ⟨ready₁.resolved, known₁⟩
    · exact safe_fail ready.resolved span (by simp [Avoids])

end Evaluator

theorem resolving_node (fuel : Nat) (s : Scope) : Resolving x s (node fuel s) := by
  induction fuel generalizing s with
  | zero =>
    intro n m bound ready _
    exact safe_fail ready.resolved n.span (by simp [Avoids])
  | succ fuel ih =>
    intro n m bound ready resolves
    apply (safe_tick ready.resolved n.span).bind
    intro _ m₁ ticked resolved₁ _
    exact safe_step ih (ready.kept (ended_tick ready.resolved.sound n.span) ticked resolved₁) n resolves

/-- A program that resolves a name never finds it unbound. -/
theorem avoids_of_evalAll {nodes : List Node} {failure : Failure} (ready : Ready x s bound m.heap)
    (resolves : Node.resolvesAll x nodes bound = true)
    (failed : Machine.evalAll s nodes m = .error failure m') : Avoids x failure.fault := by
  induction nodes generalizing m bound with
  | nil => cases failed
  | cons n nodes ih =>
    simp only [Node.resolvesAll, Bool.and_eq_true] at resolves
    have safe := resolving_node m.fuel s n m bound ready resolves.1
    simp only [Machine.evalAll, bind_apply, Machine.eval, liftFailure] at failed
    match run : node m.fuel s n m with
    | .ok value m₁ =>
      rw [run] at failed safe
      dsimp only at failed
      cases rest : Machine.evalAll s nodes m₁ with
      | ok values m₂ =>
        rw [rest] at failed
        cases failed
      | error failure' m₂ =>
        rw [rest] at failed
        cases failed
        exact ih (ready.after run safe.resolved) resolves.2 rest
    | .error (.failure failure') m₁ =>
      rw [run] at failed safe
      cases failed
      exact safe.given
    | .error (.ret value) m₁ =>
      rw [run] at failed
      cases failed
      simp [Avoids]

end Resolution

end CheckedLisp
