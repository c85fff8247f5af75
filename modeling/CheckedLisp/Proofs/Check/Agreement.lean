import CheckedLisp.Eval.Run
import CheckedLisp.Proofs.Check.BuiltinCall
import CheckedLisp.Proofs.Check.Widening

/-! A first-order program whose call arguments and predicates have definite types runs as checking
foretold: each form gives a value of its type, or the run fails for a reason that types do not show.
The two engines keep frames of their own; what ties them together is that the views of their scopes
agree, name by name. -/
namespace CheckedLisp.Check

open Sequencing

abbrev ValueBindings := List (String × Value)

/-- One frame on each side: the same names, and each value within the type of its name. -/
def FrameAgrees (types : TypeBindings) (values : ValueBindings) : Prop :=
  ∀ name, Option.Rel (fun ty v => Standard name ty ∧ Holds name ty v)
    (types.lookup name) (values.lookup name)

def Agrees : List TypeBindings → List ValueBindings → Prop := List.Forall₂ FrameAgrees

theorem FrameAgrees.widened {types types' : TypeBindings} {values : ValueBindings}
    (agrees : FrameAgrees types values) (widened : FrameWidened types types') :
    FrameAgrees types' values := by
  intro name
  have before := agrees name
  have wider := widened name
  revert before wider
  cases types.lookup name <;> cases types'.lookup name <;> cases values.lookup name <;>
    rintro (⟨standard, holds⟩ | _) (wide | _)
  · exact .none
  · exact .some ⟨(wide standard).1, (wide standard).2 _ holds⟩

theorem Agrees.widened {types types' : List TypeBindings} {values : List ValueBindings}
    (agrees : Agrees types values) (widened : Widened types types') : Agrees types' values := by
  induction agrees generalizing types' with
  | nil =>
    cases widened
    exact .nil
  | cons here _ ih =>
    cases widened with
    | cons wide rest => exact .cons (here.widened wide) (ih rest)

theorem Agrees.lookup {types : List TypeBindings} {values : List ValueBindings}
    (agrees : Agrees types values) (name : String) :
    Option.Rel (fun ty v => Standard name ty ∧ Holds name ty v)
      (types.findSome? (·.lookup name)) (values.findSome? (·.lookup name)) := by
  induction agrees with
  | nil => exact .none
  | @cons first second _ _ here _ ih =>
    have both := here name
    rw [List.findSome?_cons, List.findSome?_cons]
    revert both
    cases first.lookup name <;> cases second.lookup name <;> rintro (both | _)
    · exact ih
    · exact .some both

theorem FrameAgrees.bind {types : TypeBindings} {values : ValueBindings}
    (agrees : FrameAgrees types values) {name : String} {ty : Ty} {v : Value}
    (free : Builtin.named? name = none) (data : ty.isData) (inhabits : v.Inhabits ty) :
    FrameAgrees ((name, ty) :: types) ((name, v) :: values) := by
  intro other
  rw [List.lookup_cons, List.lookup_cons]
  by_cases same : other = name
  · subst same
    simp only [BEq.rfl]
    refine .some ?_
    simp only [Standard, Holds, free]
    exact ⟨data, inhabits⟩
  · simp only [beq_eq_false_iff_ne.2 same]
    exact agrees other

/-- An assignment changes the same frame on both sides, and its value fits the wider type. -/
theorem Agrees.rebind {types : List TypeBindings} {values : List ValueBindings}
    (agrees : Agrees types values) {name : String} {old ty : Ty} {v : Value}
    (free : Builtin.named? name = none) (data : ty.isData) (inhabits : v.Inhabits ty)
    (found : types.findSome? (·.lookup name) = some old) :
    Agrees (Heap.rebindView name (.join [old, ty]) types) (Heap.rebindView name v values) := by
  induction agrees with
  | nil => exact .nil
  | @cons first second types values here rest ih =>
    have both := here name
    rw [List.findSome?_cons] at found
    unfold Heap.rebindView
    cases left : first.lookup name with
    | none =>
      rw [left] at found both
      cases right : second.lookup name with
      | some value => rw [right] at both; cases both
      | none => exact .cons here (ih found)
    | some held =>
      rw [left] at found both
      cases found
      cases right : second.lookup name with
      | none => rw [right] at both; cases both
      | some value =>
        rw [right] at both
        obtain ⟨standard, -⟩ := both
        refine .cons ?_ rest
        intro other
        rw [Frame.lookup_replace, Frame.lookup_replace, left, right]
        split
        · next same =>
          subst same
          simp only [Standard, Holds, free, Option.map_some] at standard ⊢
          have members : ∀ t ∈ [old, ty], t.isData := by simp [standard, data]
          exact .some ⟨Ty.isData_join members, Ty.inhabits_join members (by simp) inhabits⟩
        · exact here other

/-- A checker and a machine that stand at corresponding places of a program. -/
structure Meets (c : Checker) (types : Scope) (m : Machine) (values : Scope) : Prop where
  ready : Ready c types
  ordered : m.heap.Ordered
  live : values < m.heap.next
  running : m.cancelled = false
  agrees : Agrees (c.heap.view types) (m.heap.view values)

theorem Meets.steady {c c' : Checker} {m : Machine} {types values : Scope}
    (meets : Meets c types m values) (steady : Steady types c c') : Meets c' types m values :=
  ⟨meets.ready.steady steady, meets.ordered, meets.live, meets.running,
    meets.agrees.widened steady.widened⟩

/-- Only the frames of a machine matter, and that it runs. -/
theorem Meets.machine {c : Checker} {m m' : Machine} {types values : Scope}
    (meets : Meets c types m values) (heap : m'.heap = m.heap) (running : m'.cancelled = m.cancelled) :
    Meets c types m' values :=
  ⟨meets.ready, heap ▸ meets.ordered, heap ▸ meets.live, running.trans meets.running,
    heap ▸ meets.agrees⟩

/-- Failures that no type excludes. -/
def Tolerated (failure : Eval.Failure) : Prop :=
  failure.fault.code ∈ [Code.improperList, .builtinFailure, .stepLimit, .malformedLiteral]

/-- From `m`, the computation ends as `post` says or with a tolerated failure. -/
def Safe {α : Type} (x : Run α) (m : Machine) (post : α → Machine → Prop) : Prop :=
  match x m with
  | .ok a m' => post a m'
  | .error (.failure failure) _ => Tolerated failure
  | .error (.ret _) _ => False

theorem Safe.bind {α β : Type} {x : Run α} {next : α → Run β} {m : Machine}
    {middle : α → Machine → Prop} {post : β → Machine → Prop} (first : Safe x m middle)
    (second : ∀ a m', middle a m' → Safe (next a) m' post) : Safe (x >>= next) m post := by
  unfold Safe at first ⊢
  rw [bind_apply]
  cases run : x m with
  | ok a m' =>
    rw [run] at first
    exact second a m' first
  | error e m' =>
    rw [run] at first
    cases e <;> exact first

theorem Safe.mono {α : Type} {x : Run α} {m : Machine} {post post' : α → Machine → Prop}
    (safe : Safe x m post) (weaker : ∀ a m', post a m' → post' a m') : Safe x m post' := by
  unfold Safe at safe ⊢
  cases run : x m with
  | ok a m' =>
    rw [run] at safe
    exact weaker a m' safe
  | error e m' =>
    rw [run] at safe
    cases e <;> exact safe

theorem safe_pure {α : Type} {a : α} {m : Machine} {post : α → Machine → Prop} (holds : post a m) :
    Safe (pure a) m post := holds

theorem safe_fail {α : Type} {span : Span} {fault : Eval.Fault} {m : Machine}
    {post : α → Machine → Prop} (tolerated : Tolerated ⟨span, fault⟩) :
    Safe (Eval.fail span fault) m post := tolerated

theorem safe_tick {span : Span} {m : Machine} {post : Unit → Machine → Prop}
    (running : m.cancelled = false) (holds : post () { m with steps := m.steps + 1 }) :
    Safe (Eval.tick span) m post := by
  have alive : ¬ m.cancelled = true := by simp [running]
  unfold Safe Eval.tick
  rw [if_neg alive]
  by_cases spent : m.limit ≤ m.steps
  · simp [spent, Tolerated, Eval.Fault.code]
  · simpa [spent] using holds

/-- The state after an expression or a form of type `ty` was checked and evaluated. -/
structure Done (ty : Ty) (c' : Checker) (types : Scope) (m : Machine) (values : Scope) (v : Value)
    (m' : Machine) : Prop where
  inhabits : v.Inhabits ty
  keeps : m.heap.Keeps m'.heap
  meets : Meets c' types m' values

/-- An evaluator under which every checked form does what its type says, and the name of a
built-in function gives that function. -/
structure Sound (eval : Scope → Node → Run Value) : Prop where
  form : ∀ (n : Node) (c c' : Checker) (types values : Scope) (m : Machine) (ty : Ty),
    Node.areForms [n] → Meets c types m values → node types n c = .ok ty c' →
    (∀ t ∈ judged types n c, t.isAny = false) →
    Safe (eval values n) m (Done ty c' types m values)
  callee : ∀ (span : Span) (name : String) (b : Builtin) (c : Checker) (types values : Scope)
    (m : Machine) (ty : Ty), Builtin.named? name = some b → Meets c types m values →
    c.heap.lookup types name = some ty →
    Safe (eval values (.atom span (.symbol name))) m fun v m' =>
      v = .builtin b ∧ m.heap.Keeps m'.heap ∧ Meets c types m' values

theorem areForms_singleton {n : Node} (plain : n.isFirstOrder) : Node.areForms [n] := by
  cases n with
  | define => cases plain
  | _ => simpa [Node.areForms] using plain

theorem areForms_head {n : Node} {forms : List Node} (plain : Node.areForms (n :: forms)) :
    Node.areForms [n] := by
  cases n <;> simp_all [Node.areForms]

/-- A definite condition is a truth value. -/
theorem truth_safe {span span' : Span} {test : Ty} {c c' : Checker} {done : Unit} {v : Value}
    (accepted : condition span test c = .ok done c') (definite : test.isAny = false)
    (inhabits : v.Inhabits test) (m : Machine) : Safe (Eval.truth span' v) m fun _ m' => m' = m := by
  obtain ⟨-, isCondition⟩ := condition_eq_ok accepted
  cases test <;> cases isCondition <;> cases definite
  obtain ⟨b, rfl⟩ := Value.eq_of_inhabits_bool inhabits
  exact safe_pure rfl

section Lists

variable {eval : Scope → Node → Run Value} (sound : Sound eval)
include sound

theorem collect_safe {args : List Node} {c c' : Checker} {types values : Scope} {m : Machine}
    {tys : List Ty} (plain : Node.areFirstOrder args) (meets : Meets c types m values)
    (checked : nodes types args c = .ok tys c')
    (definite : ∀ t ∈ judgedAll types args c, t.isAny = false) :
    Safe (Eval.collect (eval values) args) m fun vs m' =>
      List.Forall₂ Value.Inhabits vs tys ∧ m.heap.Keeps m'.heap ∧ Meets c' types m' values := by
  induction args generalizing c m tys with
  | nil =>
    obtain ⟨rfl, rfl⟩ := pure_eq_ok.1 checked
    exact safe_pure ⟨.nil, .refl _, meets⟩
  | cons arg args ih =>
    simp only [nodes, bind_eq_ok] at checked
    obtain ⟨ty, c₁, here, others, c₂, later, rest⟩ := checked
    obtain ⟨rfl, rfl⟩ := pure_eq_ok.1 rest
    simp only [Node.areFirstOrder, Bool.and_eq_true] at plain
    simp only [judgedAll, after, here, List.forall_mem_append] at definite
    refine (sound.form arg c c₁ types values m ty (areForms_singleton plain.1) meets here definite.1).bind ?_
    intro v m₁ done
    refine (ih plain.2 done.meets later definite.2).bind ?_
    rintro vs m₂ ⟨inhabit, keeps, meets'⟩
    exact safe_pure ⟨.cons done.inhabits inhabit, done.keeps.trans keeps, meets'⟩

theorem sequence_safe {forms : List Node} {c c' : Checker} {types values : Scope} {m : Machine}
    {last ty : Ty} {v : Value} (plain : Node.areForms forms) (meets : Meets c types m values)
    (checked : sequence types last forms c = .ok ty c') (inhabits : v.Inhabits last)
    (definite : ∀ t ∈ judgedAll types forms c, t.isAny = false) :
    Safe (Eval.sequence (eval values) v forms) m (Done ty c' types m values) := by
  induction forms generalizing c m last v with
  | nil =>
    obtain ⟨rfl, rfl⟩ := pure_eq_ok.1 checked
    exact safe_pure ⟨inhabits, .refl _, meets⟩
  | cons form forms ih =>
    simp only [sequence, bind_eq_ok] at checked
    obtain ⟨kind, c₁, here, later⟩ := checked
    simp only [judgedAll, after, here, List.forall_mem_append] at definite
    refine (sound.form form c c₁ types values m kind (areForms_head plain) meets here definite.1).bind ?_
    intro w m₁ done
    refine (ih (Node.forms_cons plain).1 done.meets later done.inhabits definite.2).mono ?_
    intro u m₂ done'
    exact ⟨done'.inhabits, done.keeps.trans done'.keeps, done'.meets⟩

/-- The checker goes through all branches, the machine through one: the branches that it
leaves out only widen. -/
theorem choose_safe {branches : List (Node × Node)} {otherwise : Node} {c c₁ c₂ : Checker}
    {types values : Scope} {m : Machine} {bodies : List Ty} {last : Ty}
    (plain : Node.areBranches branches) (plainLast : otherwise.isFirstOrder)
    (meets : Meets c types m values) (checked : cases types branches c = .ok bodies c₁)
    (checkedLast : node types otherwise c₁ = .ok last c₂)
    (definite : ∀ t ∈ judgedCases types branches c, t.isAny = false)
    (definiteLast : ∀ t ∈ judged types otherwise c₁, t.isAny = false) :
    Safe (Eval.choose (eval values) otherwise branches) m fun v m' =>
      (∃ ty ∈ bodies ++ [last], v.Inhabits ty) ∧ m.heap.Keeps m'.heap ∧ Meets c₂ types m' values := by
  induction branches generalizing c m bodies with
  | nil =>
    obtain ⟨rfl, rfl⟩ := pure_eq_ok.1 checked
    refine (sound.form otherwise c c₂ types values m last (areForms_singleton plainLast) meets checkedLast
      definiteLast).mono ?_
    intro v m' done
    exact ⟨⟨last, by simp, done.inhabits⟩, done.keeps, done.meets⟩
  | cons branch branches ih =>
    obtain ⟨predicate, body⟩ := branch
    simp only [cases, bind_eq_ok] at checked
    obtain ⟨test, d₁, tested, _, d₂, accepted, ty, d₃, here, others, d₄, later, rest⟩ := checked
    obtain ⟨rfl, -⟩ := condition_eq_ok accepted
    obtain ⟨rfl, rfl⟩ := pure_eq_ok.1 rest
    simp only [Node.areBranches, Bool.and_eq_true] at plain
    simp only [judgedCases, after, tested, here, List.cons_append, List.forall_mem_append,
      List.forall_mem_cons] at definite
    obtain ⟨definite₁, definiteTest, definite₂, definite₃⟩ := definite
    refine (sound.form predicate c d₂ types values m test (areForms_singleton plain.1.1) meets tested
      definite₁).bind ?_
    intro v m₁ first
    refine (truth_safe accepted definiteTest first.inhabits m₁).bind ?_
    rintro b m' rfl
    obtain ⟨-, steadyBody⟩ := node_steady body plain.1.2 first.meets.ready here
    cases b with
    | true =>
      refine (sound.form body d₂ d₃ types values m' ty (areForms_singleton plain.1.2) first.meets here
        definite₂).mono ?_
      intro w m₂ second
      obtain ⟨-, steadyRest⟩ := cases_steady branches plain.2 second.meets.ready later
      have meets' := second.meets.steady steadyRest
      obtain ⟨-, steadyLast⟩ := node_steady otherwise plainLast meets'.ready checkedLast
      exact ⟨⟨ty, by simp, second.inhabits⟩, first.keeps.trans second.keeps, meets'.steady steadyLast⟩
    | false =>
      refine (ih plain.2 (first.meets.steady steadyBody) later definite₃).mono ?_
      rintro w m₂ ⟨⟨kind, inside, inhabits⟩, keeps, meets'⟩
      exact ⟨⟨kind, by simp at inside ⊢; exact .inr inside, inhabits⟩, first.keeps.trans keeps, meets'⟩

end Lists

/-- The machine inside a frame that opens in `scope`. -/
def inFrame (m : Machine) (scope : Scope) (function : Option Unit) : Machine :=
  { m with heap := m.heap.add (some scope) function }

theorem keeps_inFrame (m : Machine) (scope : Scope) (function : Option Unit) :
    m.heap.Keeps (inFrame m scope function).heap := Heap.keeps_add _ _ _

theorem Meets.inBlock {c : Checker} {m : Machine} {types values : Scope}
    (meets : Meets c types m values) :
    Meets (inBlock c types) c.heap.next (inFrame m values none) m.heap.next := by
  refine ⟨meets.ready.inBlock, meets.ordered.add meets.live none, ?_, meets.running, ?_⟩
  · exact (Heap.next_add m.heap (some values) none).symm ▸ Nat.lt_succ_self _
  · rw [view_inBlock meets.ready]
    change Agrees _ ((m.heap.add (some values) none).view m.heap.next)
    rw [Heap.view_add_next meets.ordered meets.live]
    exact .cons (fun _ => .none) meets.agrees

/-- After a block both engines drop its frame and agree on what is left. -/
theorem Meets.leaveBlock {c c' : Checker} {m m' : Machine} {types values : Scope}
    (meets : Meets c types m values)
    (keepsTypes : (Check.inBlock c types).heap.Keeps c'.heap)
    (keeps : (inFrame m values none).heap.Keeps m'.heap)
    (inside : Meets c' c.heap.next m' m.heap.next) (steady : Steady types c c') :
    Meets c' types m' values := by
  obtain ⟨typeFrame, typeShape⟩ := keepsTypes.view_child inside.ready.ordered
    (Heap.frame?_add_next c.heap (some types) none) rfl
  obtain ⟨valueFrame, valueShape⟩ := keeps.view_child inside.ordered
    (Heap.frame?_add_next m.heap (some values) none) rfl
  have agrees := inside.agrees
  rw [typeShape, valueShape] at agrees
  cases agrees with
  | cons _ rest =>
    refine ⟨meets.ready.steady steady, inside.ordered, ?_, inside.running, rest⟩
    exact Nat.lt_of_lt_of_le meets.live (Nat.le_trans (keeps_inFrame m values none).next keeps.next)

/-- A frame that a function call opens does not change what its caller sees. -/
theorem Meets.inFrame {c : Checker} {m : Machine} {types values : Scope}
    (meets : Meets c types m values) (function : Option Unit) :
    Meets c types (inFrame m values function) values := by
  refine ⟨meets.ready, meets.ordered.add meets.live function, ?_, meets.running, ?_⟩
  · exact Nat.lt_of_lt_of_le meets.live (keeps_inFrame m values function).next
  · change Agrees _ ((m.heap.add (some values) function).view values)
    rw [Heap.view_add_of_lt meets.ordered meets.live meets.live]
    exact meets.agrees

theorem symbol_safe {c : Checker} {m : Machine} {types values : Scope} {span : Span} {name : String}
    {ty : Ty} (meets : Meets c types m values) (found : c.heap.lookup types name = some ty) :
    Safe (Eval.atom values span (.symbol name)) m fun v m' => Holds name ty v ∧ m' = m := by
  have both := meets.agrees.lookup name
  rw [Heap.lookup_eq_view] at found
  rw [found] at both
  cases held : (m.heap.view values).findSome? (·.lookup name) with
  | none => rw [held] at both; cases both
  | some v =>
    rw [held] at both
    cases both with
    | some both =>
      have looked : Eval.lookup values name m = .ok (some v) m := by
        unfold Eval.lookup
        rw [Heap.lookup_eq_view, held]
      unfold Safe
      simp only [Eval.atom]
      rw [bind_apply, looked]
      exact ⟨both.2, rfl⟩

theorem atom_safe {c c' : Checker} {m : Machine} {types values : Scope} {span : Span} {value : Atom}
    {ty : Ty} (plain : (Node.atom span value).isFirstOrder) (meets : Meets c types m values)
    (checked : atom types span value c = .ok ty c') :
    Safe (Eval.atom values span value) m (Done ty c' types m values) := by
  cases value with
  | symbol name =>
    obtain ⟨rfl, found⟩ := symbol_eq_ok checked
    have free : Builtin.named? name = none := by simpa [Node.isFirstOrder] using plain
    refine (symbol_safe meets found).mono ?_
    rintro v m' ⟨holds, rfl⟩
    simp only [Holds, free] at holds
    exact ⟨holds, .refl _, meets⟩
  | bool b =>
    obtain ⟨rfl, rfl⟩ := pure_eq_ok.1 checked
    exact safe_pure ⟨.bool b, .refl _, meets⟩
  | string s =>
    obtain ⟨rfl, rfl⟩ := pure_eq_ok.1 checked
    exact safe_pure ⟨.string s, .refl _, meets⟩
  | int digits =>
    obtain ⟨rfl, rfl⟩ := pure_eq_ok.1 checked
    simp only [Eval.atom]
    cases (Decimal.integer? digits).bind word? with
    | some n => exact safe_pure ⟨.int n, .refl _, meets⟩
    | none => exact safe_fail (by simp [Tolerated, Eval.Fault.code])
  | float digits =>
    obtain ⟨rfl, rfl⟩ := pure_eq_ok.1 checked
    simp only [Eval.atom]
    cases (Decimal.float? digits).filter Float.isFinite with
    | some x => exact safe_pure ⟨.float x, .refl _, meets⟩
    | none => exact safe_fail (by simp [Tolerated, Eval.Fault.code])

/-- A definition that checking accepts binds a name that is new on both sides. -/
theorem define_safe {c c' : Checker} {m : Machine} {types values : Scope} {name : Name} {ty result : Ty}
    {v : Value} (meets : Meets c types m values) (free : Builtin.named? name.text = none)
    (data : ty.isData) (inhabits : v.Inhabits ty) (bound : Check.bind types name ty c = .ok result c') :
    Safe (do if ← Eval.define values name.text v then return Value.unit
             else Eval.fail name.span (.redefinedName name.text)) m
      (Done result c' types m values) := by
  obtain ⟨-, grown⟩ := grown_bind meets.ready free data bound
  obtain ⟨typeFrame, typeFound, fresh, rfl, rfl⟩ := exists_of_bind meets.ready free bound
  obtain ⟨frame, found⟩ := Heap.exists_frame? meets.live
  obtain ⟨typeRest, typeShape⟩ := Heap.view_ne_nil meets.ready.ordered typeFound
  obtain ⟨rest, shape⟩ := Heap.view_ne_nil meets.ordered found
  have agrees := meets.agrees
  rw [typeShape, shape] at agrees
  cases agrees with
  | cons here others =>
    have unbound : frame.bindings.lookup name.text = none := by
      have both := here name.text
      rw [fresh] at both
      cases held : frame.bindings.lookup name.text with
      | none => rfl
      | some value => rw [held] at both; cases both
    have same : ∀ f : Frame Value Unit, (f.bind name.text v).parent = f.parent := fun _ => rfl
    have defined : Eval.define values name.text v m =
        .ok true { m with heap := m.heap.modify values (·.bind name.text v) } := by
      have accepted : m.heap.define values name.text v =
          (true, m.heap.modify values (·.bind name.text v)) := by
        simp [Heap.define, Heap.bindsIn_of_frame? found, unbound]
      rw [Eval.define, modifyGet_apply, accepted]
    unfold Safe
    rw [bind_apply, defined]
    refine ⟨.unit, Heap.keeps_modify _ _ same, grown.ready, meets.ordered.modify values same, ?_,
      meets.running, ?_⟩
    · simpa using meets.live
    · change Agrees ((c.heap.modify types _).view types) ((m.heap.modify values _).view values)
      rw [view_bind meets.ready typeFound, Heap.view_modify_self meets.ordered found same, typeShape,
        shape]
      exact .cons (here.bind free data inhabits) others

/-- An assignment that checking accepts changes the same frame on both sides. -/
theorem assign_safe {c : Checker} {m : Machine} {types values : Scope} {name : Name} {old ty : Ty}
    {v : Value} (meets : Meets c types m values) (free : Builtin.named? name.text = none)
    (data : ty.isData) (inhabits : v.Inhabits ty)
    (found : c.heap.lookup types name.text = some old) :
    Safe (do if ← Eval.assign values name.text v then return Value.unit
             else Eval.fail name.span (.undefinedTarget name.text)) m
      (Done .unit { c with heap := (c.heap.widen types name.text ty).2 } types m values) := by
  have steady := steady_widen meets.ready free data
  have both := meets.agrees.lookup name.text
  rw [← Heap.lookup_eq_view, ← Heap.lookup_eq_view, found] at both
  obtain ⟨typeBinder, typeBound⟩ : ∃ t, c.heap.binder? types name.text = some t := by
    refine Option.ne_none_iff_exists'.1 fun missing => ?_
    rw [Heap.binder?_eq_none_iff meets.ready.ordered meets.ready.live, found] at missing
    cases missing
  obtain ⟨binder, bound⟩ : ∃ t, m.heap.binder? values name.text = some t := by
    refine Option.ne_none_iff_exists'.1 fun missing => ?_
    rw [Heap.binder?_eq_none_iff meets.ordered meets.live] at missing
    rw [missing] at both
    cases both
  have same : ∀ f : Frame Value Unit, (f.rebind name.text v).parent = f.parent := fun _ => rfl
  have assigned : Eval.assign values name.text v m =
      .ok true { m with heap := m.heap.modify binder (·.rebind name.text v) } := by
    simp [Eval.assign, modifyGet_apply, Heap.assign, bound]
  have held := Heap.lookup_of_binder? meets.ready.ordered meets.ready.live typeBound
  rw [found] at held
  have widened : (c.heap.widen types name.text ty).2 =
      c.heap.modify typeBinder (·.rebind name.text (.join [old, ty])) := by
    simp [TypeHeap.widen, typeBound, held]
  unfold Safe
  rw [bind_apply, assigned]
  refine ⟨.unit, Heap.keeps_modify _ _ same, meets.ready.steady steady,
    meets.ordered.modify binder same, ?_, meets.running, ?_⟩
  · simpa using meets.live
  · change Agrees ((c.heap.widen types name.text ty).2.view types) ((m.heap.modify binder _).view values)
    rw [widened, Heap.view_rebind meets.ready.ordered _ meets.ready.live typeBound,
      Heap.view_rebind meets.ordered _ meets.live bound]
    exact meets.agrees.rebind free data inhabits (Heap.lookup_eq_view .. ▸ found)

/-- A call of a built-in function opens a frame and gives a value of the checked type. -/
theorem apply_safe {c : Checker} {m : Machine} {types values : Scope} {span : Span} {b : Builtin}
    {tys : List Ty} {ty : Ty} {args : List Value} (eval : Scope → Node → Run Value)
    (meets : Meets c types m values) (resolved : callOverloads b.overloads tys = .ok ty)
    (data : ∀ t ∈ tys, t.isData) (definite : ∀ t ∈ tys, t.isAny = false)
    (inhabit : List.Forall₂ Value.Inhabits args tys) :
    Safe (Eval.apply eval values span args (.builtin b)) m (Done ty c types m values) := by
  have entered : Eval.enter values (some ()) m = .ok m.heap.next (inFrame m values (some ())) := rfl
  have answers := Builtin.answers_call resolved data definite inhabit eval m.heap.next
    (inFrame m values (some ()))
  unfold Safe
  simp only [Eval.apply]
  rw [bind_apply, entered]
  simp only [Eval.calling]
  revert answers
  cases b.call eval m.heap.next args (inFrame m values (some ())) with
  | ok v m' =>
    rintro ⟨inhabits, heap, running⟩
    exact ⟨inhabits, heap ▸ keeps_inFrame m values (some ()), (meets.inFrame (some ())).machine heap running⟩
  | error e m' =>
    cases e with
    | fault fault =>
      rintro (code | code) <;> simp [Tolerated, Eval.Fault.code, code]
    | nested error => exact False.elim

theorem callee_lookup {scope : Scope} {span : Span} {name : String} {c c' : Checker} {ty : Ty}
    (checked : node scope (.atom span (.symbol name)) c = .ok ty c') :
    c.heap.lookup scope name = some ty := by
  simp only [node, bind_eq_ok] at checked
  obtain ⟨_, c₁, ticked, rest⟩ := checked
  cases tick_eq_ok ticked
  exact (symbol_eq_ok rest).2

theorem step_safe {eval : Scope → Node → Run Value} (sound : Sound eval) (fuel : Nat) {n : Node}
    {c c' : Checker} {types values : Scope} {m : Machine} {ty : Ty} (plain : n.isFirstOrder)
    (meets : Meets c types m values) (checked : node types n c = .ok ty c')
    (definite : ∀ t ∈ judged types n c, t.isAny = false) :
    Safe (Eval.step eval fuel values n) m (Done ty c' types m values) := by
  obtain ⟨-, steady⟩ := node_steady n plain meets.ready checked
  cases n with
  | unit span =>
    simp only [node, bind_eq_ok] at checked
    obtain ⟨_, c₁, ticked, rest⟩ := checked
    cases tick_eq_ok ticked
    obtain ⟨rfl, rfl⟩ := pure_eq_ok.1 rest
    exact safe_pure ⟨.unit, .refl _, meets⟩
  | atom span value =>
    simp only [node, bind_eq_ok] at checked
    obtain ⟨_, c₁, ticked, rest⟩ := checked
    cases tick_eq_ok ticked
    exact atom_safe plain meets rest
  | block span forms =>
    simp only [node, bind_eq_ok] at checked
    obtain ⟨_, c₁, ticked, inner, c₂, entered, rest⟩ := checked
    cases tick_eq_ok ticked
    cases entered
    have plainForms : Node.areForms forms := by simpa [Node.isFirstOrder] using plain
    have inside : Safe (Eval.sequence (eval m.heap.next) .unit forms) (inFrame m values none)
        (Done ty c' c.heap.next (inFrame m values none) m.heap.next) :=
      sequence_safe sound plainForms meets.inBlock rest .unit (by simpa [judged, after, enter_eq] using definite)
    obtain ⟨-, grown⟩ := sequence_grown forms plainForms meets.ready.inBlock rfl rest
    change Safe (Eval.enter values none >>= fun inner => Eval.sequence (eval inner) .unit forms) m _
    unfold Safe
    rw [bind_apply]
    refine inside.mono ?_
    intro v m' done
    exact ⟨done.inhabits, (keeps_inFrame m values none).trans done.keeps,
      meets.leaveBlock grown.keeps done.keeps done.meets steady⟩
  | call span callee args =>
    simp only [node, bind_eq_ok] at checked
    obtain ⟨_, c₁, ticked, function, c₂, calleeChecked, tys, c₃, argsChecked, called⟩ := checked
    cases tick_eq_ok ticked
    obtain ⟨symbolSpan, name, b, rfl, named, plainArgs⟩ := Node.callee_of_isFirstOrder plain
    have found := callee_lookup calleeChecked
    obtain ⟨rfl, newest, older, rfl, overloads⟩ := callee_standard named meets.ready calleeChecked
    obtain ⟨data, -⟩ := nodes_steady args plainArgs meets.ready argsChecked
    obtain ⟨rfl, resolved⟩ := call_eq_ok called
    rw [overloads] at resolved
    simp only [judged, after, calleeChecked, argsChecked, List.nil_append,
      List.forall_mem_append] at definite
    refine (sound.callee symbolSpan name b c₂ types values m _ named meets found).bind ?_
    rintro v m₁ ⟨rfl, keeps₁, meets₁⟩
    refine (collect_safe sound plainArgs meets₁ argsChecked definite.1).bind ?_
    rintro vs m₂ ⟨inhabit, keeps₂, meets₂⟩
    refine (apply_safe eval meets₂ resolved data definite.2 inhabit).mono ?_
    intro w m₃ done
    exact ⟨done.inhabits, keeps₁.trans (keeps₂.trans done.keeps), done.meets⟩
  | conditional span branches otherwise =>
    simp only [node, bind_eq_ok] at checked
    obtain ⟨_, c₁, ticked, bodies, c₂, branchesChecked, last, c₃, otherwiseChecked, rest⟩ := checked
    cases tick_eq_ok ticked
    obtain ⟨rfl, rfl⟩ := pure_eq_ok.1 rest
    simp only [Node.isFirstOrder, Bool.and_eq_true] at plain
    simp only [judged, after, branchesChecked, List.forall_mem_append] at definite
    obtain ⟨bodiesData, steadyBranches⟩ := cases_steady branches plain.1 meets.ready branchesChecked
    obtain ⟨lastData, -⟩ := node_steady otherwise plain.2 (meets.ready.steady steadyBranches)
      otherwiseChecked
    refine (choose_safe sound plain.1 plain.2 meets branchesChecked otherwiseChecked definite.1
      definite.2).mono ?_
    rintro v m' ⟨⟨kind, inside, inhabits⟩, keeps, meets'⟩
    refine ⟨Ty.inhabits_join ?_ inside inhabits, keeps, meets'⟩
    intro t inside
    rcases List.mem_append.1 inside with body | other
    · exact bodiesData t body
    · exact List.mem_singleton.1 other ▸ lastData
  | assign span name value =>
    simp only [node, bind_eq_ok] at checked
    obtain ⟨_, c₁, ticked, _, c₂, allowed, kind, c₃, valueChecked, _, c₄, widened, rest⟩ := checked
    cases tick_eq_ok ticked
    obtain ⟨rfl, old, found, -⟩ := target_eq_ok allowed
    obtain ⟨rfl, rfl⟩ := pure_eq_ok.1 rest
    simp only [Node.isFirstOrder, Bool.and_eq_true, Option.isNone_iff_eq_none] at plain
    cases widened
    obtain ⟨data, steadyValue⟩ := node_steady value plain.2 meets.ready valueChecked
    rw [Heap.lookup_eq_view] at found
    obtain ⟨new, stillFound⟩ := steadyValue.widened.exists_lookup found
    rw [← Heap.lookup_eq_view] at stillFound
    refine (sound.form value c₂ c₃ types values m kind (areForms_singleton plain.2) meets valueChecked
      (by simpa [judged] using definite)).bind ?_
    intro v m₁ first
    refine (assign_safe first.meets plain.1 data first.inhabits stillFound).mono ?_
    intro w m₂ second
    exact ⟨second.inhabits, first.keeps.trans second.keeps, second.meets⟩
  | _ => cases plain

theorem node_zero_safe {values : Scope} {n : Node} {m : Machine} {post : Value → Machine → Prop} :
    Safe (Eval.node 0 values n) m post := by
  change Tolerated ⟨n.span, .stepLimit m.limit⟩
  simp [Tolerated, Eval.Fault.code]

/-- A node pays its step and then does its work. -/
theorem node_succ_safe {fuel : Nat} {values : Scope} {n : Node} {m : Machine}
    {post : Value → Machine → Prop} (running : m.cancelled = false)
    (work : Safe (Eval.step (Eval.node fuel) fuel values n) { m with steps := m.steps + 1 } post) :
    Safe (Eval.node (fuel + 1) values n) m post := by
  have ticked : Safe (Eval.tick n.span) m fun _ m' => m' = { m with steps := m.steps + 1 } :=
    safe_tick running rfl
  refine ticked.bind ?_
  rintro _ _ rfl
  exact work

/-- One more level of nodes costs a step and then does what the levels below do. -/
theorem node_sound (fuel : Nat) : Sound (Eval.node fuel) := by
  induction fuel with
  | zero =>
    constructor
    · intros
      exact node_zero_safe
    · intros
      exact node_zero_safe
  | succ fuel ih =>
    constructor
    · intro n c c' types values m ty plain meets checked definite
      refine node_succ_safe meets.running ?_
      have meets' : Meets c types { m with steps := m.steps + 1 } values := meets.machine rfl rfl
      obtain ⟨-, expression | ⟨span, name, value, rfl, free, plainValue⟩⟩ := Node.forms_cons plain
      · refine (step_safe ih fuel expression meets' checked definite).mono ?_
        intro v m' done
        exact ⟨done.inhabits, done.keeps, done.meets⟩
      · obtain ⟨kind, c₁, valueChecked, bound⟩ := define_eq_ok plainValue checked
        obtain ⟨data, -⟩ := node_steady value plainValue meets.ready valueChecked
        refine (ih.form value c c₁ types values _ kind (areForms_singleton plainValue) meets'
          valueChecked (by simpa [judged] using definite)).bind ?_
        intro v m₁ first
        refine (define_safe first.meets free data first.inhabits bound).mono ?_
        intro w m₂ second
        exact ⟨second.inhabits, first.keeps.trans second.keeps, second.meets⟩
    · intro span name b c types values m ty named meets found
      refine node_succ_safe meets.running ?_
      have meets' : Meets c types { m with steps := m.steps + 1 } values := meets.machine rfl rfl
      refine (symbol_safe meets' found).mono ?_
      rintro v _ ⟨holds, rfl⟩
      simp only [Holds, named] at holds
      exact ⟨holds, .refl _, meets'⟩

/-- The forms of a program, one after the other. -/
theorem evalAll_sound {forms : List Node} {c c' : Checker} {types values : Scope} {m : Machine}
    {tys : List Ty} (plain : Node.areForms forms) (meets : Meets c types m values)
    (checked : nodes types forms c = .ok tys c')
    (definite : ∀ t ∈ judgedAll types forms c, t.isAny = false) :
    match Machine.evalAll values forms m with
    | .ok vs _ => List.Forall₂ Value.Inhabits vs tys
    | .error failure _ => Tolerated failure := by
  induction forms generalizing c m tys with
  | nil =>
    obtain ⟨rfl, rfl⟩ := pure_eq_ok.1 checked
    exact .nil
  | cons form forms ih =>
    simp only [nodes, bind_eq_ok] at checked
    obtain ⟨ty, c₁, here, others, c₂, later, rest⟩ := checked
    obtain ⟨rfl, rfl⟩ := pure_eq_ok.1 rest
    simp only [judgedAll, after, here, List.forall_mem_append] at definite
    have first := (node_sound m.fuel).form form c c₁ types values m ty (areForms_head plain) meets here
      definite.1
    unfold Safe at first
    simp only [Machine.evalAll, bind_apply, Machine.eval, Eval.liftFailure]
    cases run : Eval.node m.fuel values form m with
    | ok v m₁ =>
      rw [run] at first
      have second := ih (Node.forms_cons plain).1 first.meets later definite.2
      revert second
      dsimp only
      cases Machine.evalAll values forms m₁ with
      | ok vs m₂ => exact fun inhabit => .cons first.inhabits inhabit
      | error failure m₂ => exact id
    | error e m₁ =>
      rw [run] at first
      cases e with
      | failure failure => exact first
      | ret v => exact first.elim

/-- The types of the global names. -/
def globalTypes : TypeBindings := ((TypeHeap.start.frame? 0).map (·.bindings)).getD []

theorem name_of_named? {name : String} {b : Builtin} (named : Builtin.named? name = some b) :
    b.name = name := by
  simpa using List.find?_some named

theorem lookup_globalTypes (b : Builtin) :
    ∃ newest older, globalTypes.lookup b.name = some (.callable newest older) ∧
      newest :: older = b.overloads := by
  cases b with
  | arith op => cases op <;> exact ⟨_, _, rfl, rfl⟩
  | compare op => cases op <;> exact ⟨_, _, rfl, rfl⟩
  | _ => exact ⟨_, _, rfl, rfl⟩

theorem lookup_globals (b : Builtin) : Machine.globals.lookup b.name = some (.builtin b) := by
  cases b with
  | arith op => cases op <;> rfl
  | compare op => cases op <;> rfl
  | _ => rfl

/-- Besides the built-in functions, only the two truth values have global names. -/
theorem lookup_eq_none_of_not_global {α : Type} {bindings : List (String × α)} {name : String}
    (names : (bindings.map (·.1)).all fun known =>
      known = "true" || known = "false" || (Builtin.named? known).isSome)
    (free : Builtin.named? name = none) (notTrue : name ≠ "true") (notFalse : name ≠ "false") :
    bindings.lookup name = none := by
  refine List.lookup_eq_none_iff.2 ?_
  intro binding inside
  have known := List.all_eq_true.1 names binding.1 (List.mem_map_of_mem inside)
  simp only [bne_iff_ne, ne_eq]
  rintro rfl
  simp [notTrue, notFalse, free] at known

theorem frameAgrees_globals : FrameAgrees globalTypes Machine.globals := by
  intro name
  cases named : Builtin.named? name with
  | some b =>
    obtain rfl := name_of_named? named
    obtain ⟨newest, older, types, overloads⟩ := lookup_globalTypes b
    rw [types, lookup_globals b]
    refine .some ?_
    simp only [Standard, Holds, named]
    exact ⟨⟨newest, older, rfl, overloads⟩, trivial⟩
  | none =>
    by_cases isTrue : name = "true"
    · subst isTrue
      exact .some ⟨rfl, .bool true⟩
    · by_cases isFalse : name = "false"
      · subst isFalse
        exact .some ⟨rfl, .bool false⟩
      · rw [lookup_eq_none_of_not_global rfl named isTrue isFalse,
          lookup_eq_none_of_not_global rfl named isTrue isFalse]
        exact .none

theorem view_start : Checker.start.heap.view TypeHeap.globalScope = [globalTypes] := by
  have found : Checker.start.heap.frame? TypeHeap.globalScope = some ⟨none, none, globalTypes⟩ := rfl
  exact Heap.view_root found rfl

theorem ordered_of_single {α ρ : Type} {function : Option ρ} {bindings : List (String × α)} :
    (⟨#[⟨none, function, bindings⟩]⟩ : Heap α ρ).Ordered := by
  intro s frame parent found above
  cases s with
  | zero =>
    cases found
    cases above
  | succ s => cases found

theorem FrameAgrees.standard {types : TypeBindings} {values : ValueBindings}
    (agrees : FrameAgrees types values) {name : String} {ty : Ty} (found : types.lookup name = some ty) :
    Standard name ty := by
  have both := agrees name
  rw [found] at both
  cases held : values.lookup name with
  | none => rw [held] at both; cases both
  | some v =>
    rw [held] at both
    cases both with
    | some both => exact both.1

theorem meets_start (limit : Nat) (capacity : Option Nat) :
    Meets .start TypeHeap.globalScope (.start limit capacity) Machine.globalScope := by
  have shape : Checker.start.heap = ⟨#[⟨none, none, globalTypes⟩]⟩ := rfl
  refine ⟨⟨shape ▸ ordered_of_single, ?_, ?_⟩, ordered_of_single, Nat.zero_lt_one, rfl, ?_⟩
  · exact shape ▸ Nat.zero_lt_one
  · rw [view_start]
    intro bindings inside name ty found
    cases List.mem_singleton.1 inside
    exact frameAgrees_globals.standard found
  · rw [view_start]
    exact .cons frameAgrees_globals .nil

theorem nodes_of_check {src : Source} {forms : List Node} {tys : List Ty}
    (parsed : src.parse = .ok forms) (checked : src.check = .ok tys) :
    ∃ c, nodes TypeHeap.globalScope forms .start = .ok tys c := by
  simp only [Source.check, parsed, except_bind_eq_ok] at checked
  obtain ⟨_, same, typed⟩ := checked
  cases same
  split at typed
  · next found =>
    cases typed
    exact ⟨_, found⟩
  · cases typed

/-- A first-order program that checks, with no argument and no predicate of type `Any`, gives
one value of each of its types, or fails for one of the reasons that types do not show. -/
theorem run_inhabits_or_tolerated {src : Source} {forms : List Node} {tys : List Ty}
    (parsed : src.parse = .ok forms) (plain : Node.areForms forms) (checked : src.check = .ok tys)
    (definite : ∀ t ∈ judgedAll TypeHeap.globalScope forms .start, t.isAny = false) :
    (∃ vs, src.run.1 = .ok vs ∧ List.Forall₂ Value.Inhabits vs tys) ∨
    ∃ report, src.run.1 = .error (Collector.empty.push report) ∧
      report.code ∈ [Code.improperList, .builtinFailure, .stepLimit, .malformedLiteral] := by
  obtain ⟨c, typed⟩ := nodes_of_check parsed checked
  have sound := evalAll_sound plain (meets_start Machine.defaultLimit none) typed definite
  simp only [Source.run, parsed]
  cases run : Machine.evalAll Machine.globalScope forms (.start Machine.defaultLimit none) with
  | ok vs m =>
    rw [run] at sound
    exact .inl ⟨vs, rfl, sound⟩
  | error failure m =>
    rw [run] at sound
    exact .inr ⟨failure.report src.name, rfl, sound⟩

/-- A program whose branches differ in type. -/
def branching : Source := ⟨"branching", "(if (< 1 2) \"a\" 3)"⟩

/-- The program gives its value, so it is the first alternative that holds. -/
theorem run_branching_inhabits_or_tolerated :
    branching.run = (.ok [.string "a"], "") ∧
    ((∃ vs, branching.run.1 = .ok vs ∧ List.Forall₂ Value.Inhabits vs [.union [.int, .string]]) ∨
      ∃ report, branching.run.1 = .error (Collector.empty.push report) ∧
        report.code ∈ [Code.improperList, .builtinFailure, .stepLimit, .malformedLiteral]) := by
  have parsed : branching.parse = .ok [
      .conditional ⟨⟨1, 1⟩, ⟨1, 18⟩⟩
        [(.call ⟨⟨1, 5⟩, ⟨1, 11⟩⟩ (.atom ⟨⟨1, 6⟩, ⟨1, 6⟩⟩ (.symbol "<"))
            [.atom ⟨⟨1, 8⟩, ⟨1, 8⟩⟩ (.int "1"), .atom ⟨⟨1, 10⟩, ⟨1, 10⟩⟩ (.int "2")],
          .atom ⟨⟨1, 13⟩, ⟨1, 15⟩⟩ (.string "a"))]
        (.atom ⟨⟨1, 17⟩, ⟨1, 17⟩⟩ (.int "3"))] := by rfl
  have checked : branching.check = .ok [.union [.int, .string]] := by
    rw [Source.check, parsed]
    rfl
  exact ⟨rfl, run_inhabits_or_tolerated parsed (by decide) checked (by decide +kernel)⟩

end CheckedLisp.Check
