import CheckedLisp.Proofs.Check.FirstOrder
import CheckedLisp.Proofs.Check.Overloads
import CheckedLisp.Proofs.Sequencing
import CheckedLisp.Proofs.Scope.View

/-! Checking a first-order expression leaves every name bound that was bound, with a type that has
at least the values it had. So what was true of a branch that was checked stays true after the other
branches were checked as well. -/
namespace CheckedLisp.Check

open Sequencing

/-- The types that names have in first-order programs: a built-in function has its own
signatures, and everything else is data. -/
def Standard (name : String) (ty : Ty) : Prop :=
  match Builtin.named? name with
  | some b => ∃ newest older, ty = .callable newest older ∧ newest :: older = b.overloads
  | none => ty.isData = true

/-- What a name with type `ty` may hold. -/
def Holds (name : String) (ty : Ty) (v : Value) : Prop :=
  match Builtin.named? name with
  | some b => v = .builtin b
  | none => v.Inhabits ty

def Wider (name : String) (old new : Ty) : Prop :=
  Standard name old → Standard name new ∧ ∀ v, Holds name old v → Holds name new v

theorem Wider.refl (name : String) (ty : Ty) : Wider name ty ty :=
  fun standard => ⟨standard, fun _ holds => holds⟩

theorem Wider.trans {name : String} {a b c : Ty} (first : Wider name a b) (second : Wider name b c) :
    Wider name a c := by
  intro standard
  obtain ⟨standard', values⟩ := first standard
  obtain ⟨standard'', values'⟩ := second standard'
  exact ⟨standard'', fun v holds => values' v (values v holds)⟩

theorem wider_join {name : String} {old ty : Ty} (free : Builtin.named? name = none)
    (data : ty.isData) : Wider name old (.join [old, ty]) := by
  intro standard
  simp only [Standard, Holds, free] at standard ⊢
  have both : ∀ t ∈ [old, ty], t.isData := by simp [standard, data]
  exact ⟨Ty.isData_join both, fun v holds => Ty.inhabits_join both List.mem_cons_self holds⟩

abbrev TypeBindings := List (String × Ty)

def FrameWidened (old new : TypeBindings) : Prop :=
  ∀ name, Option.Rel (Wider name) (old.lookup name) (new.lookup name)

def Widened : List TypeBindings → List TypeBindings → Prop := List.Forall₂ FrameWidened

theorem FrameWidened.refl (bindings : TypeBindings) : FrameWidened bindings bindings := by
  intro name
  cases bindings.lookup name with
  | none => exact .none
  | some ty => exact .some (Wider.refl name ty)

theorem FrameWidened.trans {a b c : TypeBindings} (first : FrameWidened a b)
    (second : FrameWidened b c) : FrameWidened a c := by
  intro name
  have left := first name
  have right := second name
  revert left right
  cases a.lookup name <;> cases b.lookup name <;> cases c.lookup name <;>
    rintro (one | _) (two | _)
  · exact .none
  · exact .some (one.trans two)

theorem Widened.refl (view : List TypeBindings) : Widened view view :=
  List.forall₂_same.2 fun bindings _ => FrameWidened.refl bindings

theorem Widened.trans {a b c : List TypeBindings} (first : Widened a b) (second : Widened b c) :
    Widened a c := by
  induction first generalizing c with
  | nil => exact second
  | cons here _ ih =>
    cases second with
    | cons here' rest' => exact .cons (here.trans here') (ih rest')

theorem Widened.tail {a b : List TypeBindings} (widened : Widened a b) : Widened a.tail b.tail := by
  cases widened with
  | nil => exact .nil
  | cons _ rest => exact rest

/-- A name that was seen is still seen. -/
theorem Widened.exists_lookup {a b : List TypeBindings} (widened : Widened a b) {name : String} {old : Ty}
    (found : a.findSome? (·.lookup name) = some old) :
    ∃ new, b.findSome? (·.lookup name) = some new := by
  induction widened with
  | nil => cases found
  | @cons first second _ _ here _ ih =>
    have both := here name
    rw [List.findSome?_cons] at found ⊢
    revert both found
    cases first.lookup name <;> cases second.lookup name <;> intro found both
    · exact ih found
    · cases both
    · cases both
    · exact ⟨_, rfl⟩

/-- Assigning data to a name widens the frame that binds it. -/
theorem widened_rebindView {view : List TypeBindings} {name : String} {old ty : Ty}
    (free : Builtin.named? name = none) (data : ty.isData)
    (found : view.findSome? (·.lookup name) = some old) :
    Widened view (Heap.rebindView name (.join [old, ty]) view) := by
  induction view with
  | nil => exact .nil
  | cons bindings rest ih =>
    rw [List.findSome?_cons] at found
    unfold Heap.rebindView
    cases here : bindings.lookup name with
    | none =>
      rw [here] at found
      exact .cons (FrameWidened.refl bindings) (ih found)
    | some held =>
      rw [here] at found
      cases found
      refine .cons ?_ (Widened.refl rest)
      intro other
      rw [Frame.lookup_replace]
      split
      · next same =>
        subst same
        simp only [here, Option.map_some]
        exact .some (wider_join free data)
      · exact FrameWidened.refl bindings other

def StandardView (view : List TypeBindings) : Prop :=
  ∀ bindings ∈ view, ∀ name ty, bindings.lookup name = some ty → Standard name ty

theorem StandardView.lookup {view : List TypeBindings} (standard : StandardView view) {name : String}
    {ty : Ty} (found : view.findSome? (·.lookup name) = some ty) : Standard name ty := by
  obtain ⟨bindings, inside, here⟩ := List.exists_of_findSome?_eq_some found
  exact standard bindings inside name ty here

theorem StandardView.widened {a b : List TypeBindings} (standard : StandardView a)
    (widened : Widened a b) : StandardView b := by
  induction widened with
  | nil => exact standard
  | cons here _ ih =>
    intro bindings inside name ty found
    rcases List.mem_cons.1 inside with rfl | later
    · have rel := here name
      rw [found] at rel
      cases old : List.lookup name _ with
      | none => rw [old] at rel; cases rel
      | some before =>
        rw [old] at rel
        cases rel with
        | some wider => exact (wider (standard _ List.mem_cons_self name before old)).1
    · exact ih (fun b h => standard b (List.mem_cons_of_mem _ h)) bindings later name ty found

/-- A scope in which first-order nodes can be checked. -/
structure Ready (c : Checker) (scope : Scope) : Prop where
  ordered : c.heap.Ordered
  live : scope < c.heap.next
  standard : StandardView (c.heap.view scope)

/-- What checking an expression does to the scope it is checked in. -/
structure Steady (scope : Scope) (c c' : Checker) : Prop where
  ordered : c'.heap.Ordered
  keeps : c.heap.Keeps c'.heap
  widened : Widened (c.heap.view scope) (c'.heap.view scope)

theorem Ready.steady {c c' : Checker} {scope : Scope} (ready : Ready c scope)
    (steady : Steady scope c c') : Ready c' scope :=
  ⟨steady.ordered, Nat.lt_of_lt_of_le ready.live steady.keeps.next,
    ready.standard.widened steady.widened⟩

theorem Ready.refl {c : Checker} {scope : Scope} (ready : Ready c scope) : Steady scope c c :=
  ⟨ready.ordered, .refl _, .refl _⟩

theorem Steady.trans {scope : Scope} {c₁ c₂ c₃ : Checker} (first : Steady scope c₁ c₂)
    (second : Steady scope c₂ c₃) : Steady scope c₁ c₃ :=
  ⟨second.ordered, first.keeps.trans second.keeps, first.widened.trans second.widened⟩

/-- What checking forms does: definitions add names to the scope itself and to no other. -/
structure Grown (scope : Scope) (c c' : Checker) : Prop where
  ready : Ready c' scope
  keeps : c.heap.Keeps c'.heap
  widened : Widened (c.heap.view scope).tail (c'.heap.view scope).tail

theorem Ready.grown {c c' : Checker} {scope : Scope} (ready : Ready c scope)
    (steady : Steady scope c c') : Grown scope c c' :=
  ⟨ready.steady steady, steady.keeps, steady.widened.tail⟩

theorem Grown.trans {scope : Scope} {c₁ c₂ c₃ : Checker} (first : Grown scope c₁ c₂)
    (second : Grown scope c₂ c₃) : Grown scope c₁ c₃ :=
  ⟨second.ready, first.keeps.trans second.keeps, first.widened.trans second.widened⟩

theorem tick_eq_ok {span : Span} {c c' : Checker} {done : Unit} (ticked : tick span c = .ok done c') :
    c' = c := by
  unfold tick at ticked
  split at ticked
  · cases ticked
  · cases ticked
    rfl

/-- The checker inside a block that opens in `scope`. -/
def inBlock (c : Checker) (scope : Scope) : Checker := { c with heap := c.heap.add (some scope) none }

theorem enter_eq (scope : Scope) (c : Checker) : enter scope none c = .ok c.heap.next (inBlock c scope) :=
  rfl

theorem view_inBlock {c : Checker} {scope : Scope} (ready : Ready c scope) :
    (inBlock c scope).heap.view c.heap.next = [] :: c.heap.view scope :=
  Heap.view_add_next ready.ordered ready.live none

theorem Ready.inBlock {c : Checker} {scope : Scope} (ready : Ready c scope) :
    Ready (inBlock c scope) c.heap.next := by
  refine ⟨ready.ordered.add ready.live none, ?_, ?_⟩
  · exact (Heap.next_add c.heap (some scope) none).symm ▸ Nat.lt_succ_self _
  · rw [view_inBlock ready]
    intro bindings inside name ty found
    rcases List.mem_cons.1 inside with rfl | later
    · cases found
    · exact ready.standard bindings later name ty found

/-- When a block ends, the scope around it was only widened. -/
theorem Ready.leaveBlock {c c' : Checker} {scope : Scope} (ready : Ready c scope)
    (grown : Grown c.heap.next (Check.inBlock c scope) c') : Steady scope c c' := by
  obtain ⟨bindings, shape⟩ := grown.keeps.view_child grown.ready.ordered
    (Heap.frame?_add_next c.heap (some scope) none) rfl
  refine ⟨grown.ready.ordered, (Heap.keeps_add _ _ _).trans grown.keeps, ?_⟩
  have widened := grown.widened
  rwa [view_inBlock ready, shape] at widened

/-- An assignment of data widens its target. -/
theorem steady_widen {c : Checker} {scope : Scope} (ready : Ready c scope) {name : String} {ty : Ty}
    (free : Builtin.named? name = none) (data : ty.isData) :
    Steady scope c { c with heap := (c.heap.widen scope name ty).2 } := by
  unfold TypeHeap.widen
  cases binder : c.heap.binder? scope name with
  | none => exact ready.refl
  | some t =>
    have held := Heap.lookup_of_binder? ready.ordered ready.live binder
    cases found : (c.heap.frame? t).bind (·.lookup name) with
    | none => simpa [found] using ready.refl
    | some old =>
      rw [found, Heap.lookup_eq_view] at held
      simp only [found]
      have same : ∀ f : Frame Ty (List Ty), (f.rebind name (.join [old, ty])).parent = f.parent :=
        fun _ => rfl
      refine ⟨ready.ordered.modify t same, Heap.keeps_modify _ _ same, ?_⟩
      change Widened _ ((c.heap.modify t _).view scope)
      rw [Heap.view_rebind ready.ordered _ ready.live binder]
      exact widened_rebindView free data held.symm

theorem not_callable_of_standard {name : String} {ty : Ty} (standard : Standard name ty)
    (free : Builtin.named? name = none) : ty.isCallable = false := by
  simp only [Standard, free] at standard
  cases ty <;> simp_all [Ty.isData, Ty.isGround, Ty.isCallable]

/-- A definition of data succeeds only for a name that its frame does not bind. -/
theorem define_eq {c : Checker} {scope : Scope} (ready : Ready c scope) {name : String} {ty : Ty}
    (free : Builtin.named? name = none) {frame : Frame Ty (List Ty)}
    (found : c.heap.frame? scope = some frame) :
    c.heap.define scope name ty = match frame.bindings.lookup name with
      | none => (true, c.heap.modify scope (·.bind name ty))
      | some _ => (false, c.heap) := by
  obtain ⟨rest, shape⟩ := Heap.view_ne_nil ready.ordered found
  unfold TypeHeap.define
  simp only [found, Option.bind_some, Frame.lookup]
  cases held : frame.bindings.lookup name with
  | none => rfl
  | some old =>
    have standard := ready.standard frame.bindings (by simp [shape]) name old held
    have plain := not_callable_of_standard standard free
    cases old <;> first | rfl | cases plain

theorem bind_eq (scope : Scope) (name : Name) (ty : Ty) (c : Checker) :
    Check.bind scope name ty c = match c.heap.define scope name.text ty with
      | (true, heap) => .ok .unit { c with heap }
      | (false, heap) => .error ⟨name.span, .redefinedName name.text⟩ { c with heap } := by
  unfold Check.bind
  rw [bind_apply]
  have defined : define scope name.text ty c =
      .ok (c.heap.define scope name.text ty).1 { c with heap := (c.heap.define scope name.text ty).2 } :=
    rfl
  rw [defined]
  obtain ⟨done, heap⟩ := c.heap.define scope name.text ty
  cases done <;> rfl

/-- A definition of data is accepted when its frame does not bind the name, and binds it. -/
theorem exists_of_bind {c c' : Checker} {scope : Scope} (ready : Ready c scope) {name : Name}
    {ty result : Ty} (free : Builtin.named? name.text = none)
    (bound : Check.bind scope name ty c = .ok result c') :
    ∃ frame, c.heap.frame? scope = some frame ∧ frame.bindings.lookup name.text = none ∧
      result = .unit ∧ c' = { c with heap := c.heap.modify scope (·.bind name.text ty) } := by
  obtain ⟨frame, found⟩ := Heap.exists_frame? ready.live
  rw [bind_eq, define_eq ready free found] at bound
  cases held : frame.bindings.lookup name.text with
  | some old =>
    rw [held] at bound
    cases bound
  | none =>
    rw [held] at bound
    cases bound
    exact ⟨frame, found, held, rfl, rfl⟩

theorem view_bind {c : Checker} {scope : Scope} (ready : Ready c scope) {frame : Frame Ty (List Ty)}
    (found : c.heap.frame? scope = some frame) (name : String) (ty : Ty) :
    (c.heap.modify scope (·.bind name ty)).view scope =
      ((name, ty) :: frame.bindings) :: (c.heap.view scope).tail :=
  Heap.view_modify_self ready.ordered found fun _ => rfl

theorem grown_bind {c c' : Checker} {scope : Scope} (ready : Ready c scope) {name : Name}
    {ty result : Ty} (free : Builtin.named? name.text = none) (data : ty.isData)
    (bound : Check.bind scope name ty c = .ok result c') :
    result = .unit ∧ Grown scope c c' := by
  obtain ⟨frame, found, -, rfl, rfl⟩ := exists_of_bind ready free bound
  obtain ⟨rest, shape⟩ := Heap.view_ne_nil ready.ordered found
  have after := view_bind ready found name.text ty
  have same : ∀ f : Frame Ty (List Ty), (f.bind name.text ty).parent = f.parent := fun _ => rfl
  refine ⟨rfl, ⟨ready.ordered.modify scope same, ?_, ?_⟩, Heap.keeps_modify _ _ same, ?_⟩
  · simpa using ready.live
  · rw [after, shape]
    intro bindings inside other kind here
    rcases List.mem_cons.1 inside with rfl | later
    · rw [List.lookup_cons] at here
      split at here
      · next equal =>
        cases here
        rw [beq_iff_eq] at equal
        subst equal
        simpa only [Standard, free] using data
      · exact ready.standard frame.bindings (by simp [shape]) other kind here
    · exact ready.standard bindings (by simp_all) other kind here
  · rw [after]
    exact .refl _

theorem symbol_eq_ok {scope : Scope} {span : Span} {name : String} {c c' : Checker} {ty : Ty}
    (checked : atom scope span (.symbol name) c = .ok ty c') :
    c' = c ∧ c.heap.lookup scope name = some ty := by
  simp only [atom, bind_eq_ok] at checked
  obtain ⟨found, c₁, looked, rest⟩ := checked
  cases looked
  cases held : c.heap.lookup scope name with
  | none =>
    rw [held] at rest
    cases rest
  | some kind =>
    rw [held] at rest
    obtain ⟨rfl, rfl⟩ := pure_eq_ok.1 rest
    exact ⟨rfl, rfl⟩

theorem atom_data {scope : Scope} {span : Span} {value : Atom} {c c' : Checker} {ty : Ty}
    (plain : (Node.atom span value).isFirstOrder) (ready : Ready c scope)
    (checked : atom scope span value c = .ok ty c') : c' = c ∧ ty.isData := by
  cases value with
  | symbol name =>
    obtain ⟨rfl, found⟩ := symbol_eq_ok checked
    rw [Heap.lookup_eq_view] at found
    have standard := ready.standard.lookup found
    have free : Builtin.named? name = none := by simpa [Node.isFirstOrder] using plain
    simp only [Standard, free] at standard
    exact ⟨rfl, standard⟩
  | _ =>
    obtain ⟨rfl, rfl⟩ := pure_eq_ok.1 checked
    exact ⟨rfl, rfl⟩

/-- The callee of a first-order call is a built-in function with its own signatures. -/
theorem callee_standard {scope : Scope} {span : Span} {name : String} {c c' : Checker} {ty : Ty}
    {b : Builtin} (named : Builtin.named? name = some b) (ready : Ready c scope)
    (checked : node scope (.atom span (.symbol name)) c = .ok ty c') :
    c' = c ∧ ∃ newest older, ty = .callable newest older ∧ newest :: older = b.overloads := by
  simp only [node, bind_eq_ok] at checked
  obtain ⟨_, c₁, ticked, rest⟩ := checked
  cases tick_eq_ok ticked
  obtain ⟨rfl, found⟩ := symbol_eq_ok rest
  rw [Heap.lookup_eq_view] at found
  have standard := ready.standard.lookup found
  simp only [Standard, named] at standard
  exact ⟨rfl, standard⟩

theorem call_eq_ok {span : Span} {callee : Node} {args : List Ty} {newest : Signature Ty}
    {older : List (Signature Ty)} {c c' : Checker} {ty : Ty}
    (called : call span callee args (.callable newest older) c = .ok ty c') :
    c' = c ∧ callOverloads (newest :: older) args = .ok ty := by
  cases resolved : callOverloads (newest :: older) args with
  | ok result =>
    simp only [call, resolved] at called
    obtain ⟨rfl, rfl⟩ := pure_eq_ok.1 called
    exact ⟨rfl, rfl⟩
  | error fault =>
    simp only [call, resolved] at called
    cases called

theorem target_eq_ok {scope : Scope} {name : Name} {c c' : Checker} {done : Unit}
    (allowed : target scope name c = .ok done c') :
    c' = c ∧ ∃ ty, c.heap.lookup scope name.text = some ty ∧ ty.isCallable = false := by
  simp only [target, bind_eq_ok] at allowed
  obtain ⟨found, c₁, looked, rest⟩ := allowed
  cases looked
  cases held : c.heap.lookup scope name.text with
  | none =>
    rw [held] at rest
    cases rest
  | some ty =>
    rw [held] at rest
    dsimp only at rest
    split at rest
    · cases rest
    · next plain =>
      obtain ⟨_, rfl⟩ := pure_eq_ok.1 rest
      exact ⟨rfl, ty, rfl, Bool.eq_false_iff.2 plain⟩

theorem condition_eq_ok {span : Span} {ty : Ty} {c c' : Checker} {done : Unit}
    (accepted : condition span ty c = .ok done c') : c' = c ∧ ty.isCondition = true := by
  unfold condition at accepted
  split at accepted
  · next isCondition =>
    obtain ⟨_, rfl⟩ := pure_eq_ok.1 accepted
    exact ⟨rfl, isCondition⟩
  · cases accepted

/-- A definition whose value is no lambda checks the value and binds its type. -/
theorem define_eq_ok {scope : Scope} {span : Span} {name : Name} {value : Node} {c c' : Checker} {ty : Ty}
    (plain : value.isFirstOrder) (checked : node scope (.define span name value) c = .ok ty c') :
    ∃ kind c₁, node scope value c = .ok kind c₁ ∧ Check.bind scope name kind c₁ = .ok ty c' := by
  have unfolded : node scope (.define span name value) = (do
      tick span
      let kind ← node scope value
      Check.bind scope name kind) := by
    cases value with
    | lambda => cases plain
    | _ => simp only [node]
  simp only [unfolded, bind_eq_ok] at checked
  obtain ⟨_, c₁, ticked, kind, c₂, valueChecked, bound⟩ := checked
  cases tick_eq_ok ticked
  exact ⟨kind, c₂, valueChecked, bound⟩

mutual

/-- Checking a first-order expression gives it a type of data and only widens. -/
theorem node_steady {scope : Scope} (n : Node) (plain : n.isFirstOrder) {c c' : Checker} {ty : Ty}
    (ready : Ready c scope) (checked : node scope n c = .ok ty c') :
    ty.isData ∧ Steady scope c c' := by
  cases n with
  | unit span =>
    simp only [node, bind_eq_ok] at checked
    obtain ⟨_, c₁, ticked, rest⟩ := checked
    cases tick_eq_ok ticked
    obtain ⟨rfl, rfl⟩ := pure_eq_ok.1 rest
    exact ⟨rfl, ready.refl⟩
  | atom span value =>
    simp only [node, bind_eq_ok] at checked
    obtain ⟨_, c₁, ticked, rest⟩ := checked
    cases tick_eq_ok ticked
    obtain ⟨rfl, data⟩ := atom_data plain ready rest
    exact ⟨data, ready.refl⟩
  | block span forms =>
    simp only [node, bind_eq_ok] at checked
    obtain ⟨_, c₁, ticked, inner, c₂, entered, rest⟩ := checked
    cases tick_eq_ok ticked
    cases entered
    obtain ⟨data, grown⟩ := sequence_grown forms (by simpa [Node.isFirstOrder] using plain)
      ready.inBlock rfl rest
    exact ⟨data, ready.leaveBlock grown⟩
  | call span callee args =>
    simp only [node, bind_eq_ok] at checked
    obtain ⟨_, c₁, ticked, function, c₂, calleeChecked, tys, c₃, argsChecked, called⟩ := checked
    cases tick_eq_ok ticked
    obtain ⟨symbolSpan, name, b, rfl, named, plainArgs⟩ := Node.callee_of_isFirstOrder plain
    obtain ⟨rfl, newest, older, rfl, overloads⟩ := callee_standard named ready calleeChecked
    obtain ⟨-, steady⟩ := nodes_steady args plainArgs ready argsChecked
    obtain ⟨rfl, resolved⟩ := call_eq_ok called
    rw [overloads] at resolved
    obtain ⟨s, inside, -, rfl⟩ := Builtin.exists_overload resolved
    exact ⟨(Builtin.rule_of_mem_overloads inside).2, steady⟩
  | conditional span branches otherwise =>
    simp only [node, bind_eq_ok] at checked
    obtain ⟨_, c₁, ticked, bodies, c₂, branchesChecked, last, c₃, otherwiseChecked, rest⟩ := checked
    cases tick_eq_ok ticked
    obtain ⟨rfl, rfl⟩ := pure_eq_ok.1 rest
    simp only [Node.isFirstOrder, Bool.and_eq_true] at plain
    obtain ⟨bodiesData, steady⟩ := cases_steady branches plain.1 ready branchesChecked
    obtain ⟨lastData, steady'⟩ := node_steady otherwise plain.2 (ready.steady steady) otherwiseChecked
    refine ⟨Ty.isData_join ?_, steady.trans steady'⟩
    intro kind inside
    rcases List.mem_append.1 inside with body | other
    · exact bodiesData kind body
    · exact List.mem_singleton.1 other ▸ lastData
  | assign span name value =>
    simp only [node, bind_eq_ok] at checked
    obtain ⟨_, c₁, ticked, _, c₂, allowed, kind, c₃, valueChecked, _, c₄, widened, rest⟩ := checked
    cases tick_eq_ok ticked
    obtain ⟨rfl, -⟩ := target_eq_ok allowed
    obtain ⟨rfl, rfl⟩ := pure_eq_ok.1 rest
    simp only [Node.isFirstOrder, Bool.and_eq_true, Option.isNone_iff_eq_none] at plain
    obtain ⟨data, steady⟩ := node_steady value plain.2 ready valueChecked
    cases widened
    exact ⟨rfl, steady.trans (steady_widen (ready.steady steady) plain.1 data)⟩
  | _ => cases plain

theorem nodes_steady {scope : Scope} (ns : List Node) (plain : Node.areFirstOrder ns)
    {c c' : Checker} {tys : List Ty} (ready : Ready c scope) (checked : nodes scope ns c = .ok tys c') :
    (∀ ty ∈ tys, ty.isData) ∧ Steady scope c c' := by
  cases ns with
  | nil =>
    obtain ⟨rfl, rfl⟩ := pure_eq_ok.1 checked
    exact ⟨by simp, ready.refl⟩
  | cons n ns =>
    simp only [nodes, bind_eq_ok] at checked
    obtain ⟨ty, c₁, here, others, c₂, later, rest⟩ := checked
    obtain ⟨rfl, rfl⟩ := pure_eq_ok.1 rest
    simp only [Node.areFirstOrder, Bool.and_eq_true] at plain
    obtain ⟨data, steady⟩ := node_steady n plain.1 ready here
    obtain ⟨othersData, steady'⟩ := nodes_steady ns plain.2 (ready.steady steady) later
    exact ⟨List.forall_mem_cons.2 ⟨data, othersData⟩, steady.trans steady'⟩

theorem cases_steady {scope : Scope} (branches : List (Node × Node)) (plain : Node.areBranches branches)
    {c c' : Checker} {tys : List Ty} (ready : Ready c scope)
    (checked : cases scope branches c = .ok tys c') :
    (∀ ty ∈ tys, ty.isData) ∧ Steady scope c c' := by
  match branches, plain, checked with
  | [], _, checked =>
    obtain ⟨rfl, rfl⟩ := pure_eq_ok.1 checked
    exact ⟨by simp, ready.refl⟩
  | (predicate, body) :: branches, plain, checked =>
    simp only [cases, bind_eq_ok] at checked
    obtain ⟨test, c₁, tested, _, c₂, accepted, ty, c₃, here, others, c₄, later, rest⟩ := checked
    obtain ⟨rfl, -⟩ := condition_eq_ok accepted
    obtain ⟨rfl, rfl⟩ := pure_eq_ok.1 rest
    simp only [Node.areBranches, Bool.and_eq_true] at plain
    obtain ⟨-, steady₁⟩ := node_steady predicate plain.1.1 ready tested
    have ready₁ := ready.steady steady₁
    obtain ⟨data, steady₂⟩ := node_steady body plain.1.2 ready₁ here
    obtain ⟨othersData, steady₃⟩ := cases_steady branches plain.2 (ready₁.steady steady₂) later
    exact ⟨List.forall_mem_cons.2 ⟨data, othersData⟩, steady₁.trans (steady₂.trans steady₃)⟩

theorem sequence_grown {scope : Scope} (forms : List Node) (plain : Node.areForms forms)
    {c c' : Checker} {last ty : Ty} (ready : Ready c scope) (lastData : last.isData)
    (checked : sequence scope last forms c = .ok ty c') : ty.isData ∧ Grown scope c c' := by
  cases forms with
  | nil =>
    obtain ⟨rfl, rfl⟩ := pure_eq_ok.1 checked
    exact ⟨lastData, ready.grown ready.refl⟩
  | cons form forms =>
    simp only [sequence, bind_eq_ok] at checked
    obtain ⟨kind, c₁, here, later⟩ := checked
    cases form with
    | define span name value =>
      simp only [Node.areForms, Bool.and_eq_true, Option.isNone_iff_eq_none] at plain
      obtain ⟨⟨free, plainValue⟩, plainRest⟩ := plain
      obtain ⟨valueKind, c₂, valueChecked, bound⟩ := define_eq_ok plainValue here
      obtain ⟨data, steady⟩ := node_steady value plainValue ready valueChecked
      obtain ⟨rfl, grown₁⟩ := grown_bind (ready.steady steady) free data bound
      obtain ⟨data', grown₂⟩ := sequence_grown forms plainRest grown₁.ready rfl later
      exact ⟨data', ((ready.grown steady).trans grown₁).trans grown₂⟩
    | _ =>
      simp only [Node.areForms, Bool.and_eq_true] at plain
      obtain ⟨data, steady⟩ := node_steady _ plain.1 ready here
      obtain ⟨data', grown⟩ := sequence_grown forms plain.2 (ready.steady steady) data later
      exact ⟨data', (ready.grown steady).trans grown⟩

end

end CheckedLisp.Check
