import CheckedLisp.Proofs.Check.Echo
import CheckedLisp.Proofs.Check.Reassignment

/-! A loop is checked once, although its head comes again after its body. An assignment in the loop
may widen what a reference before it has read; then a second check sees other types than the first,
and may fail. It cannot if every reference to a name from outside of the loop has read the type that
the name has in the end. -/
namespace CheckedLisp.Check

/-- If the node is a reference to a name from below `m`, the type that it reads is the one that
the name has in `final`. -/
def Visit.settled (m : Nat) (final : TypeHeap) (v : Visit) : Bool :=
  match v.node with
  | .atom _ (.symbol name) =>
    match v.checker.heap.binder? v.scope name with
    | some t => decide (m ≤ t) || v.checker.heap.bound t name == final.bound t name
    | none => true
  | _ => true

/-- The checker `b` of a second check, where the first had `a`. -/
structure Echoes (m d : Nat) (final : TypeHeap) (a b : Checker) : Prop where
  cancelled : b.cancelled = a.cancelled
  heap : TypeHeap.Echo m d final a.heap b.heap

variable {m d : Nat} {final : TypeHeap} {u : Nat} {a a₁ b : Checker} {ty : Ty}

namespace Echoes

theorem running (echoes : Echoes m d final a b) (running : a.cancelled = false) : b.cancelled = false :=
  echoes.cancelled.trans running

theorem lookup_of_binder (echoes : Echoes m d final a b) (live : u < a.heap.next) {name : String} {t : Nat}
    (binder : a.heap.binder? u name = some t) (held : b.heap.bound (shift m d t) name = some ty) :
    b.heap.lookup (shift m d u) name = some ty := by
  have binder' := echoes.heap.binder? live name
  rw [binder, Option.map_some] at binder'
  exact (Heap.lookup_of_binder? echoes.heap.sound'.ordered (echoes.heap.live live) binder').symm.trans held

/-- A reference that the first check has settled reads a type that is alike. -/
theorem lookup (echoes : Echoes m d final a b) (live : u < a.heap.next) {span : Span} {name : String}
    (settled : Visit.settled m final ⟨u, .atom span (.symbol name), a⟩ = true)
    (found : a.heap.lookup u name = some ty) :
    ∃ ty', b.heap.lookup (shift m d u) name = some ty' ∧ ty.Alike ty' := by
  obtain ⟨t, binder, held⟩ := Heap.exists_binder? echoes.heap.sound.ordered live found
  have here : t < a.heap.next := Heap.lt_next_of_binder? echoes.heap.sound.ordered live binder
  obtain ⟨ty', held', alike⟩ := echoes.heap.bound here held (by
    intro old last heldLast
    cases callable : ty.isCallable with
    | false =>
      have equal : (ty == last) = true := by
        have equal : (a.heap.bound t name == final.bound t name) = true := by
          simpa [Visit.settled, binder, Nat.not_le.2 old] using settled
        rwa [show a.heap.bound t name = some ty from held, heldLast] at equal
      exact Ty.alike_of_beq equal callable
    | true =>
      obtain ⟨_, heldLast', evolved⟩ := echoes.heap.settles.bound old held
      cases heldLast.symm.trans heldLast'
      rw [evolved.foreign callable not_false]
      exact .refl ty)
  exact ⟨ty', echoes.lookup_of_binder live binder held', alike⟩

theorem target (echoes : Echoes m d final a b) (live : u < a.heap.next) {name : String}
    (found : a.heap.lookup u name = some ty) (data : ty.isCallable = false) :
    ∃ ty', b.heap.lookup (shift m d u) name = some ty' ∧ ty'.isCallable = false := by
  obtain ⟨t, binder, held⟩ := Heap.exists_binder? echoes.heap.sound.ordered live found
  have here : t < a.heap.next := Heap.lt_next_of_binder? echoes.heap.sound.ordered live binder
  obtain ⟨ty', held', data'⟩ := echoes.heap.bound_data here held data
  exact ⟨ty', echoes.lookup_of_binder live binder held', data'⟩

theorem opened (echoes : Echoes m d final a b) (live : u < a.heap.next) {function : Option (List Ty)}
    (empty : ∀ gathered ∈ function, gathered = []) :
    Echoes m d final (opened a u function) (opened b (shift m d u) function) :=
  ⟨echoes.cancelled, echoes.heap.add live empty⟩

theorem next (echoes : Echoes m d final a b) : b.heap.next = shift m d a.heap.next := by
  rw [shift_of_le echoes.heap.young, echoes.heap.next]

end Echoes

theorem bindAll_echoes {params : List Name} {tys : List Ty} (echoes : Echoes m d final a b) (young : m ≤ u)
    (live : u < a.heap.next) (normal : ∀ ty ∈ tys, ty.Declared) (bound : bindAll u params tys a = .ok () a₁) :
    ∃ b₁, bindAll (shift m d u) params tys b = .ok () b₁ ∧ Echoes m d final a₁ b₁ ∧ a.heap.next ≤ a₁.heap.next := by
  induction params generalizing tys a b with
  | nil =>
    cases bound
    exact ⟨b, rfl, echoes, Nat.le_refl _⟩
  | cons param params ih =>
    cases tys with
    | nil =>
      cases bound
      exact ⟨b, rfl, echoes, Nat.le_refl _⟩
    | cons ty tys =>
      obtain ⟨normalTy, normalTys⟩ := List.forall_mem_cons.1 normal
      obtain ⟨_, a₂, defined, rest⟩ := Sequencing.bind_eq_ok.1 bound
      cases defined
      have grown := TypeHeap.next_le_define a.heap u param.text ty
      obtain ⟨-, heap⟩ := echoes.heap.define young live param.text (.refl ty) normalTy normalTy
      have defines : Echoes m d final { a with heap := (a.heap.define u param.text ty).2 }
          { b with heap := (b.heap.define (shift m d u) param.text ty).2 } := ⟨echoes.cancelled, heap⟩
      obtain ⟨b₁, bound', echoes', grown'⟩ := ih defines (Nat.lt_of_lt_of_le live grown) normalTys rest
      exact ⟨b₁, Sequencing.bind_eq_ok.2 ⟨_, _, rfl, bound'⟩, echoes', Nat.le_trans grown grown'⟩

theorem around_echoes {self : Option String} {outer : Scope} (echoes : Echoes m d final a b) (live : u < a.heap.next)
    (normal : ty.Declared) (surrounded : around u self ty a = .ok outer a₁) :
    ∃ b₁, around (shift m d u) self ty b = .ok (shift m d outer) b₁ ∧ Echoes m d final a₁ b₁ ∧
      outer < a₁.heap.next := by
  cases self with
  | none =>
    cases surrounded
    exact ⟨b, rfl, echoes, live⟩
  | some name =>
    cases surrounded
    have inside : Echoes m d final (Check.opened a u none) (Check.opened b (shift m d u) none) :=
      echoes.opened live (by simp)
    have top := Heap.lt_next_add a.heap (some u) none
    have grown := TypeHeap.next_le_define (Check.opened a u none).heap a.heap.next name ty
    obtain ⟨-, heap⟩ := inside.heap.define echoes.heap.young top name (.refl ty) normal normal
    have defines : Echoes m d final
        { a with heap := ((Check.opened a u none).heap.define a.heap.next name ty).2 }
        { b with heap := ((Check.opened b (shift m d u) none).heap.define (shift m d a.heap.next) name ty).2 } :=
      ⟨echoes.cancelled, heap⟩
    refine ⟨_, ?_, defines, Nat.lt_of_lt_of_le top grown⟩
    rw [← echoes.next]
    rfl

/-- The frames of a lambda are opened again in the same way, and its signature is read without a
look at them. -/
theorem openLambda_echoes {self : Option String} {span : Span} {params : List Name} {doc : Option String}
    {opening : Opening} (echoes : Echoes m d final a b) (live : u < a.heap.next)
    (opens : openLambda u self span params doc a = .ok opening a₁) :
    ∃ b₁, openLambda (shift m d u) self span params doc b =
        .ok ⟨opening.tys, opening.declared, shift m d opening.frame⟩ b₁ ∧
      Echoes m d final a₁ b₁ ∧ m ≤ opening.frame := by
  obtain ⟨tys, declared, outer, a₂, read, surrounded, bound, rfl⟩ := openLambda_ok.1 opens
  obtain ⟨normalTys, normalRet⟩ : (∀ ty ∈ tys, ty.Declared) ∧ ∀ ty ∈ declared, ty.Declared := by
    rcases signature_cases span params doc a with ⟨failure, refused⟩ | ⟨_, _, found, normal⟩
    · cases refused.symm.trans read
    · cases found.symm.trans read
      exact normal
  obtain ⟨b₂, surrounded', echoes₂, liveOuter⟩ :=
    around_echoes echoes live (declared_provisional normalTys normalRet) surrounded
  have inside : Echoes m d final (opened a₂ outer (some [])) (opened b₂ (shift m d outer) (some [])) :=
    echoes₂.opened liveOuter fun _ held => (Option.some.inj held).symm
  have top := Heap.lt_next_add a₂.heap (some outer) (some [])
  obtain ⟨b₁, bound', echoes₁, -⟩ := bindAll_echoes inside echoes₂.heap.young top normalTys bound
  rw [← echoes₂.next] at bound'
  refine ⟨b₁, ?_, echoes₁, echoes₂.heap.young⟩
  have read' : signature span params doc b = .ok (tys, declared) b := signature_ok.2 ⟨rfl, (signature_ok.1 read).2⟩
  exact openLambda_ok.2 ⟨tys, declared, shift m d outer, b₂, read', surrounded', bound', by rw [echoes₂.next]⟩

theorem map_core_cons {ty ty' : Ty} {tys tys' : List Ty} (alike : ty.Alike ty')
    (alikes : tys.map Ty.core = tys'.map Ty.core) : (ty :: tys).map Ty.core = (ty' :: tys').map Ty.core := by
  rw [List.map_cons, List.map_cons, alikes, show ty.core = ty'.core from alike]

/-- The join of what branches or `return!` forms have, with a last type. -/
theorem alike_join_append {tys tys' : List Ty} {last last' : Ty} (alike : tys.map Ty.core = tys'.map Ty.core)
    (alikeLast : last.Alike last') (normal : ∀ ty ∈ tys, ty.Declared) (normal' : ∀ ty ∈ tys', ty.Declared)
    (normalLast : last.Declared) (normalLast' : last'.Declared) :
    (Ty.join (tys ++ [last])).Alike (Ty.join (tys' ++ [last'])) := by
  apply Ty.alike_join _ (TypeText.forall_append_singleton normal normalLast)
    (TypeText.forall_append_singleton normal' normalLast')
  rw [List.map_append, List.map_append, alike, List.map_singleton, List.map_singleton,
    show last.core = last'.core from alikeLast]

theorem result?_alike {opening opening' : Opening} {returned returned' : List Ty} {last last' : Ty}
    (tys : opening'.tys = opening.tys) (declared : opening'.declared = opening.declared)
    (inferred : (Ty.join (returned ++ [last])).Alike (Ty.join (returned' ++ [last'])))
    (result : opening.result? returned last = some ty) :
    ∃ ty', opening'.result? returned' last' = some ty' ∧ ty.Alike ty' := by
  rw [Opening.result?] at result ⊢
  rw [declared, tys]
  cases isDeclared : opening.declared with
  | none =>
    rw [isDeclared] at result
    cases result
    exact ⟨_, rfl, Ty.alike_function inferred⟩
  | some ret =>
    rw [isDeclared] at result
    dsimp only at result ⊢
    rw [← inferred.same]
    split at result
    · next fits =>
      cases result
      exact ⟨_, by rw [if_pos fits], .refl _⟩
    · cases result

/-- A lambda is checked again, if its body is. -/
theorem lambda_echoes {self : Option String} {span : Span} {params : List Name} {doc : Option String} {body : Node}
    (echoes : Echoes m d final a b) (live : u < a.heap.next)
    (checked : lambda u self span params doc (fun frame => node frame body) a = .ok ty a₁)
    (settles : TypeHeap.Settles m final a₁.heap)
    (reads : ∀ v ∈ following (openLambda u self span params doc) a fun opening c =>
      leave opening.frame body c (visitsInside true opening.frame body c), v.settled m final = true)
    (inside : ∀ (frame : Nat) (a b : Checker) (last : Ty) (a₁ : Checker), Echoes m d final a b → frame < a.heap.next →
      m ≤ frame → node frame body a = .ok last a₁ → TypeHeap.Settles m final a₁.heap →
      (∀ v ∈ visits true frame body a, v.settled m final = true) →
      ∃ last' b₁, node (shift m d frame) body b = .ok last' b₁ ∧ last.Alike last' ∧ Echoes m d final a₁ b₁) :
    ∃ ty' b₁, lambda (shift m d u) self span params doc (fun frame => node frame body) b = .ok ty' b₁ ∧
      ty.Alike ty' ∧ Echoes m d final a₁ b₁ := by
  obtain ⟨opening, a₂, last, a₃, opens, checkedBody, result, rfl⟩ := lambda_ok.1 checked
  obtain ⟨b₂, opens', echoes₂, young⟩ := openLambda_echoes echoes live opens
  rw [following_ok opens] at reads
  rcases openLambda_cases echoes.heap.sound live self span params doc with ⟨_, refused⟩ | ⟨_, _, opens'', spec⟩
  · cases refused.symm.trans opens
  cases opens''.symm.trans opens
  have frameLive := spec.inside.live
  obtain ⟨sound₃, evolved, normal⟩ := evolved_of_ok echoes₂.heap.sound frameLive checkedBody
  have frameLive₃ := Nat.lt_of_lt_of_le frameLive evolved.next
  have settles₃ : TypeHeap.Settles m final a₃.heap :=
    settles.before (TypeHeap.evolved_clearReturns a₃.heap opening.frame opening.frame fun _ => False)
      fun below => absurd below (Nat.not_lt.2 young)
  obtain ⟨last', b₃, checkedBody', alike, echoes₃⟩ :=
    inside opening.frame a₂ b₂ last a₃ echoes₂ frameLive young checkedBody settles₃ reads
  obtain ⟨-, -, normal'⟩ := evolved_of_ok echoes₂.heap.sound' (echoes₂.heap.live frameLive) checkedBody'
  have gathered := (echoes₃.heap.returns opening.frame young frameLive₃).symm
  have inferred := alike_join_append gathered alike (sound₃.returns _) (echoes₃.heap.sound'.returns _) normal normal'
  obtain ⟨ty', result', alikeTy⟩ := result?_alike rfl rfl inferred result
  refine ⟨ty', _, lambda_ok.2 ⟨_, b₂, last', b₃, opens', checkedBody', result', rfl⟩, alikeTy, ?_⟩
  exact ⟨echoes₃.cancelled, echoes₃.heap.clearReturns young frameLive₃⟩

theorem reads_inside {P : Visit → Prop} {n : Node} (running : a.cancelled = false)
    (reads : ∀ v ∈ visits true u n a, P v) : ∀ v ∈ visitsInside true u n a, P v := by
  intro v inside
  apply reads
  rw [visits, leave_running running]
  exact List.mem_append_left _ inside

/-- Nothing is defined in frames that were there before. -/
def Calm (m u : Nat) (binds : String → Bool) : Prop := u < m → ∀ name, binds name = false

theorem calm_of_le (young : m ≤ u) (binds : String → Bool) : Calm m u binds :=
  fun below => absurd below (Nat.not_lt.2 young)

theorem Calm.left {first second : String → Bool} (calm : Calm m u fun name => first name || second name) :
    Calm m u first :=
  fun below name => (Bool.or_eq_false_iff.1 (calm below name)).1

theorem Calm.right {first second : String → Bool} (calm : Calm m u fun name => first name || second name) :
    Calm m u second :=
  fun below name => (Bool.or_eq_false_iff.1 (calm below name)).2

theorem Calm.settles {binds : String → Bool} (calm : Calm m u binds) (settles : TypeHeap.Settles m final a₁.heap)
    (evolved : a.heap.Evolved u (binds · = true) a₁.heap) : TypeHeap.Settles m final a.heap :=
  settles.before evolved fun below name isNew => Bool.eq_false_iff.1 (calm below name) isNew

/-- A call succeeds again with types that are alike. -/
theorem gives_alike {function function' : Ty} {args args' : List Ty} (alike : function.Alike function')
    (alikeArgs : args.map Ty.core = args'.map Ty.core) (normal : function.Declared) (normal' : function'.Declared)
    (given : Gives function args ty) : ∃ ty', Gives function' args' ty' ∧ ty.Alike ty' := by
  rcases given with ⟨newest, older, rfl, called⟩ | ⟨rfl, rfl⟩
  · obtain ⟨newest', older', rfl⟩ := Ty.eq_callable (alike.isCallable.symm.trans rfl)
    obtain ⟨ty', called', alikeTy⟩ := Ty.callOverloads_alike alike alikeArgs normal normal' called
    exact ⟨ty', .inl ⟨newest', older', rfl, called'⟩, alikeTy⟩
  · have isAny : function'.isAny = true := by
      rw [← Ty.isAny_bare, ← alike.bare]
      rfl
    exact ⟨.any, .inr ⟨Ty.isAny_iff.1 isAny, rfl⟩, .refl _⟩

mutual

/-- A node that is checked again has a type that is alike. Only a definition in `u` could have made
a function of the target of an assignment, and there is none. -/
theorem node_echoes (n : Node) {u : Nat} {a a₁ b : Checker} {ty : Ty} (echoes : Echoes m d final a b)
    (live : u < a.heap.next) (calm : Calm m u (n.binds ·)) (checked : node u n a = .ok ty a₁)
    (settles : TypeHeap.Settles m final a₁.heap) (reads : ∀ v ∈ visits true u n a, v.settled m final = true) :
    ∃ ty' b₁, node (shift m d u) n b = .ok ty' b₁ ∧ ty.Alike ty' ∧ Echoes m d final a₁ b₁ := by
  cases n with
  | unit span =>
    obtain ⟨running, rfl, rfl⟩ := node_unit_ok.1 checked
    exact ⟨.unit, b, node_unit_ok.2 ⟨echoes.running running, rfl, rfl⟩, .refl _, echoes⟩
  | atom span value =>
    obtain ⟨running, found, rfl⟩ := node_atom_ok.1 checked
    have again (ty' : Ty) (found' : atomType? (b.heap.lookup (shift m d u)) value = some ty') :
        node (shift m d u) (.atom span value) b = .ok ty' b :=
      node_atom_ok.2 ⟨echoes.running running, found', rfl⟩
    cases value with
    | symbol name =>
      have settled : Visit.settled m final ⟨u, .atom span (.symbol name), a₁⟩ = true := by
        apply reads
        rw [visits, leave_running running]
        exact List.mem_append_right _ List.mem_cons_self
      obtain ⟨ty', found', alike⟩ := echoes.lookup live settled found
      exact ⟨ty', b, again ty' found', alike, echoes⟩
    | _ => exact ⟨ty, b, again ty found, .refl ty, echoes⟩
  | block span forms =>
    obtain ⟨running, checkedForms⟩ := node_block_ok.1 checked
    have inside : Echoes m d final (opened a u none) (opened b (shift m d u) none) := echoes.opened live (by simp)
    obtain ⟨ty', b₁, checkedForms', alike, echoes₁⟩ := sequence_echoes forms inside
      (Heap.lt_next_add a.heap (some u) none) (calm_of_le echoes.heap.young _) (.refl .unit) checkedForms settles
      (reads_inside running reads)
    rw [← echoes.next] at checkedForms'
    exact ⟨ty', b₁, node_block_ok.2 ⟨echoes.running running, checkedForms'⟩, alike, echoes₁⟩
  | call span callee args =>
    obtain ⟨running, function, a₂, tys, checkedCallee, checkedArgs, given⟩ := node_call_ok.1 checked
    have reads := reads_inside running reads
    simp only [visitsInside, following_ok checkedCallee, List.forall_mem_append] at reads
    obtain ⟨sound₂, evolved₂, normal⟩ := evolved_of_ok echoes.heap.sound live checkedCallee
    have live₂ := Nat.lt_of_lt_of_le live evolved₂.next
    obtain ⟨-, evolved₁, -⟩ := (nodes_ended args sound₂ live₂).of_ok checkedArgs
    obtain ⟨function', b₂, checkedCallee', alike, echoes₂⟩ :=
      node_echoes callee echoes live calm.left checkedCallee (calm.right.settles settles evolved₁) reads.1
    obtain ⟨-, -, normal'⟩ := evolved_of_ok echoes.heap.sound' (echoes.heap.live live) checkedCallee'
    obtain ⟨tys', b₁, checkedArgs', alikeArgs, echoes₁⟩ :=
      nodes_echoes args echoes₂ live₂ calm.right checkedArgs settles reads.2
    obtain ⟨ty', given', alikeTy⟩ := gives_alike alike alikeArgs normal normal' given
    exact ⟨ty', b₁, node_call_ok.2 ⟨echoes.running running, function', b₂, tys', checkedCallee', checkedArgs', given'⟩,
      alikeTy, echoes₁⟩
  | conditional span branches otherwise =>
    obtain ⟨running, bodies, a₂, last, checkedCases, checkedLast, rfl⟩ := node_conditional_ok.1 checked
    have reads := reads_inside running reads
    simp only [visitsInside, following_ok checkedCases, List.forall_mem_append] at reads
    obtain ⟨sound₂, evolved₂, normal⟩ := (cases_ended branches echoes.heap.sound live).of_ok checkedCases
    have live₂ := Nat.lt_of_lt_of_le live evolved₂.next
    obtain ⟨-, evolved₁, normalLast⟩ := evolved_of_ok sound₂ live₂ checkedLast
    obtain ⟨bodies', b₂, checkedCases', alike, echoes₂⟩ :=
      cases_echoes branches echoes live calm.left checkedCases (calm.right.settles settles evolved₁) reads.1
    obtain ⟨-, -, normal'⟩ := (cases_ended branches echoes.heap.sound' (echoes.heap.live live)).of_ok checkedCases'
    obtain ⟨last', b₁, checkedLast', alikeLast, echoes₁⟩ :=
      node_echoes otherwise echoes₂ live₂ calm.right checkedLast settles reads.2
    obtain ⟨-, -, normalLast'⟩ := evolved_of_ok echoes₂.heap.sound' (echoes₂.heap.live live₂) checkedLast'
    refine ⟨.join (bodies' ++ [last']), b₁, node_conditional_ok.2
      ⟨echoes.running running, bodies', b₂, last', checkedCases', checkedLast', rfl⟩, ?_, echoes₁⟩
    exact alike_join_append alike alikeLast normal normal' normalLast normalLast'
  | loop span predicate body =>
    obtain ⟨running, test, a₂, last, checkedTest, accepted, checkedBody, rfl⟩ := node_loop_ok.1 checked
    have reads := reads_inside running reads
    have passed : condition predicate.span test a₂ = .ok () a₂ := condition_ok.2 ⟨accepted, rfl⟩
    simp only [visitsInside, following_ok checkedTest, following_ok passed, List.forall_mem_append] at reads
    obtain ⟨sound₂, evolved₂, -⟩ := evolved_of_ok echoes.heap.sound live checkedTest
    have live₂ := Nat.lt_of_lt_of_le live evolved₂.next
    obtain ⟨-, evolved₁, -⟩ := evolved_of_ok sound₂ live₂ checkedBody
    obtain ⟨test', b₂, checkedTest', alike, echoes₂⟩ :=
      node_echoes predicate echoes live calm.left checkedTest (calm.right.settles settles evolved₁) reads.1
    obtain ⟨last', b₁, checkedBody', -, echoes₁⟩ :=
      node_echoes body echoes₂ live₂ calm.right checkedBody settles reads.2
    exact ⟨.unit, b₁, node_loop_ok.2 ⟨echoes.running running, test', b₂, last', checkedTest',
      alike.isCondition.symm.trans accepted, checkedBody', rfl⟩, .refl _, echoes₁⟩
  | define span name v =>
    obtain ⟨running, kind, a₂, heap, checkedValue, defined, rfl, rfl⟩ := node_define_ok.1 checked
    have young : m ≤ u := by
      rw [← Nat.not_lt]
      intro below
      simpa [Node.binds] using calm below name.text
    have reads := reads_inside running reads
    obtain ⟨sound₂, evolved₂, normal⟩ := value_evolved_of_ok echoes.heap.sound live checkedValue
    have live₂ := Nat.lt_of_lt_of_le live evolved₂.next
    have defines : TypeHeap.Evolved u (fun _ => True) a₂.heap (a₂.heap.define u name.text kind).2 :=
      TypeHeap.evolved_define a₂.heap u trivial kind
    rw [defined] at defines
    have settles₂ : TypeHeap.Settles m final a₂.heap :=
      settles.before defines fun below => absurd below (Nat.not_lt.2 young)
    obtain ⟨kind', b₂, checkedValue', alike, echoes₂⟩ : ∃ kind' b₂, value (shift m d u) name.text v b = .ok kind' b₂ ∧
        kind.Alike kind' ∧ Echoes m d final a₂ b₂ := by
      cases v with
      | lambda lambdaSpan params doc body =>
        simp only [visitsInside, if_true] at reads
        refine lambda_echoes echoes live checkedValue settles₂ reads ?_
        intro frame a b last a₁ echoes live young checkedBody settles reads
        exact node_echoes body echoes live (calm_of_le young _) checkedBody settles reads
      | _ => exact node_echoes _ echoes live (calm_of_le young _) checkedValue settles₂ reads
    obtain ⟨-, -, normal'⟩ := value_evolved_of_ok echoes.heap.sound' (echoes.heap.live live) checkedValue'
    obtain ⟨accepted, heap₁⟩ := echoes₂.heap.define young live₂ name.text alike normal normal'
    rw [defined] at accepted heap₁
    exact ⟨.unit, { b₂ with heap := (b₂.heap.define (shift m d u) name.text kind').2 }, node_define_ok.2
      ⟨echoes.running running, kind', b₂, (b₂.heap.define (shift m d u) name.text kind').2, checkedValue',
        Prod.ext accepted rfl, rfl, rfl⟩, .refl _,
      ⟨echoes₂.cancelled, heap₁⟩⟩
  | assign span name v =>
    obtain ⟨running, first, kind, a₂, found, plain, checkedValue, rfl, rfl⟩ := node_assign_ok.1 checked
    have allowed : target u name a = .ok () a := target_ok.2 ⟨⟨first, found, plain⟩, rfl⟩
    have reads := reads_inside running reads
    simp only [visitsInside, following_ok allowed] at reads
    obtain ⟨sound₂, evolved₂, normal⟩ := evolved_of_ok echoes.heap.sound live checkedValue
    have live₂ := Nat.lt_of_lt_of_le live evolved₂.next
    have data : ∀ t old, a₂.heap.binder? u name.text = some t → t < m → a₂.heap.bound t name.text = some old →
        old.isCallable = false := by
      intro t old binder below held
      rw [Bool.eq_false_iff]
      intro callable
      have holds : a₂.heap.holdsFunction t name.text = true := by
        rw [TypeHeap.holdsFunction, held, Option.any_some, callable]
      obtain ⟨rfl, -, isNew⟩ := evolved₂.new_of_holdsFunction echoes.heap.sound.ordered sound₂.ordered live found plain
        binder holds
      exact Bool.eq_false_iff.1 (calm below name.text) isNew
    obtain ⟨kind', b₂, checkedValue', alike, echoes₂⟩ :=
      node_echoes v echoes live calm checkedValue (settles.before_widen sound₂ normal data) reads
    obtain ⟨-, -, normal'⟩ := evolved_of_ok echoes.heap.sound' (echoes.heap.live live) checkedValue'
    obtain ⟨first', found', plain'⟩ := echoes.target live found plain
    exact ⟨.unit, { b₂ with heap := (b₂.heap.widen (shift m d u) name.text kind').2 }, node_assign_ok.2
      ⟨echoes.running running, first', kind', b₂, found', plain', checkedValue', rfl, rfl⟩, .refl _,
      ⟨echoes₂.cancelled, echoes₂.heap.widen live₂ alike normal normal' data settles⟩⟩
  | lambda span params doc body =>
    obtain ⟨running, checkedLambda⟩ := node_lambda_ok.1 checked
    have reads := reads_inside running reads
    simp only [visitsInside, if_true] at reads
    obtain ⟨ty', b₁, checkedLambda', alike, echoes₁⟩ := lambda_echoes echoes live checkedLambda settles reads (by
      intro frame a b last a₁ echoes live young checkedBody settles reads
      exact node_echoes body echoes live (calm_of_le young _) checkedBody settles reads)
    exact ⟨ty', b₁, node_lambda_ok.2 ⟨echoes.running running, checkedLambda'⟩, alike, echoes₁⟩
  | quote span inner =>
    obtain ⟨running, rfl, rfl⟩ := node_quote_ok.1 checked
    exact ⟨.any, b, node_quote_ok.2 ⟨echoes.running running, rfl, rfl⟩, .refl _, echoes⟩
  | ret span v =>
    obtain ⟨running, a₂, heap, checkedValue, recorded, rfl⟩ := node_ret_ok.1 checked
    have reads := reads_inside running reads
    obtain ⟨sound₂, evolved₂, normal⟩ := evolved_of_ok echoes.heap.sound live checkedValue
    have live₂ := Nat.lt_of_lt_of_le live evolved₂.next
    have records := TypeHeap.evolved_recordReturn a₂.heap u u (fun _ => False) ty
    rw [recorded] at records
    obtain ⟨ty', b₂, checkedValue', alike, echoes₂⟩ :=
      node_echoes v echoes live calm checkedValue (settles.before records fun _ _ => not_false) reads
    obtain ⟨-, -, normal'⟩ := evolved_of_ok echoes.heap.sound' (echoes.heap.live live) checkedValue'
    obtain ⟨heap', recorded', heap₁⟩ := echoes₂.heap.recordReturn live₂ alike normal normal' recorded settles
    exact ⟨ty', { b₂ with heap := heap' }, node_ret_ok.2
      ⟨echoes.running running, b₂, heap', checkedValue', recorded', rfl⟩, alike, ⟨echoes₂.cancelled, heap₁⟩⟩

theorem sequence_echoes (forms : List Node) {u : Nat} {a a₁ b : Checker} {last last' ty : Ty}
    (echoes : Echoes m d final a b) (live : u < a.heap.next) (calm : Calm m u (Node.bindsAny · forms))
    (alike : last.Alike last') (checked : sequence u last forms a = .ok ty a₁)
    (settles : TypeHeap.Settles m final a₁.heap) (reads : ∀ v ∈ visitsAll true u forms a, v.settled m final = true) :
    ∃ ty' b₁, sequence (shift m d u) last' forms b = .ok ty' b₁ ∧ ty.Alike ty' ∧ Echoes m d final a₁ b₁ := by
  cases forms with
  | nil =>
    obtain ⟨rfl, rfl⟩ := Sequencing.pure_eq_ok.1 checked
    exact ⟨last', b, rfl, alike, echoes⟩
  | cons form forms =>
    obtain ⟨kind, a₂, checkedForm, checkedForms⟩ := sequence_cons_ok.1 checked
    simp only [visitsAll, following_ok checkedForm, List.forall_mem_append] at reads
    obtain ⟨sound₂, evolved₂, normal⟩ := evolved_of_ok echoes.heap.sound live checkedForm
    have live₂ := Nat.lt_of_lt_of_le live evolved₂.next
    obtain ⟨-, evolved₁, -⟩ := (sequence_ended forms sound₂ live₂ normal).of_ok checkedForms
    obtain ⟨kind', b₂, checkedForm', alikeForm, echoes₂⟩ :=
      node_echoes form echoes live calm.left checkedForm (calm.right.settles settles evolved₁) reads.1
    obtain ⟨ty', b₁, checkedForms', alikeTy, echoes₁⟩ :=
      sequence_echoes forms echoes₂ live₂ calm.right alikeForm checkedForms settles reads.2
    exact ⟨ty', b₁, sequence_cons_ok.2 ⟨kind', b₂, checkedForm', checkedForms'⟩, alikeTy, echoes₁⟩

theorem nodes_echoes (ns : List Node) {u : Nat} {a a₁ b : Checker} {tys : List Ty}
    (echoes : Echoes m d final a b) (live : u < a.heap.next) (calm : Calm m u (Node.bindsAny · ns))
    (checked : nodes u ns a = .ok tys a₁) (settles : TypeHeap.Settles m final a₁.heap)
    (reads : ∀ v ∈ visitsAll true u ns a, v.settled m final = true) :
    ∃ tys' b₁, nodes (shift m d u) ns b = .ok tys' b₁ ∧ tys.map Ty.core = tys'.map Ty.core ∧
      Echoes m d final a₁ b₁ := by
  cases ns with
  | nil =>
    obtain ⟨rfl, rfl⟩ := Sequencing.pure_eq_ok.1 checked
    exact ⟨[], b, rfl, rfl, echoes⟩
  | cons n ns =>
    obtain ⟨kind, a₂, kinds, checkedNode, checkedNodes, rfl⟩ := nodes_cons_ok.1 checked
    simp only [visitsAll, following_ok checkedNode, List.forall_mem_append] at reads
    obtain ⟨sound₂, evolved₂, -⟩ := evolved_of_ok echoes.heap.sound live checkedNode
    have live₂ := Nat.lt_of_lt_of_le live evolved₂.next
    obtain ⟨-, evolved₁, -⟩ := (nodes_ended ns sound₂ live₂).of_ok checkedNodes
    obtain ⟨kind', b₂, checkedNode', alike, echoes₂⟩ :=
      node_echoes n echoes live calm.left checkedNode (calm.right.settles settles evolved₁) reads.1
    obtain ⟨kinds', b₁, checkedNodes', alikes, echoes₁⟩ :=
      nodes_echoes ns echoes₂ live₂ calm.right checkedNodes settles reads.2
    exact ⟨kind' :: kinds', b₁, nodes_cons_ok.2 ⟨kind', b₂, kinds', checkedNode', checkedNodes', rfl⟩,
      map_core_cons alike alikes, echoes₁⟩

theorem cases_echoes (branches : List (Node × Node)) {u : Nat} {a a₁ b : Checker} {tys : List Ty}
    (echoes : Echoes m d final a b) (live : u < a.heap.next) (calm : Calm m u (Node.bindsCases · branches))
    (checked : cases u branches a = .ok tys a₁) (settles : TypeHeap.Settles m final a₁.heap)
    (reads : ∀ v ∈ visitsCases true u branches a, v.settled m final = true) :
    ∃ tys' b₁, cases (shift m d u) branches b = .ok tys' b₁ ∧ tys.map Ty.core = tys'.map Ty.core ∧
      Echoes m d final a₁ b₁ := by
  match branches with
  | [] =>
    obtain ⟨rfl, rfl⟩ := Sequencing.pure_eq_ok.1 checked
    exact ⟨[], b, rfl, rfl, echoes⟩
  | (predicate, body) :: rest =>
    obtain ⟨test, a₂, kind, a₃, kinds, checkedTest, accepted, checkedBody, checkedRest, rfl⟩ := cases_cons_ok.1 checked
    have passed : condition predicate.span test a₂ = .ok () a₂ := condition_ok.2 ⟨accepted, rfl⟩
    simp only [visitsCases, following_ok checkedTest, following_ok passed, following_ok checkedBody,
      List.forall_mem_append] at reads
    obtain ⟨sound₂, evolved₂, -⟩ := evolved_of_ok echoes.heap.sound live checkedTest
    have live₂ := Nat.lt_of_lt_of_le live evolved₂.next
    obtain ⟨sound₃, evolved₃, -⟩ := evolved_of_ok sound₂ live₂ checkedBody
    have live₃ := Nat.lt_of_lt_of_le live₂ evolved₃.next
    obtain ⟨-, evolved₁, -⟩ := (cases_ended rest sound₃ live₃).of_ok checkedRest
    have settles₃ := calm.right.settles settles evolved₁
    obtain ⟨test', b₂, checkedTest', alikeTest, echoes₂⟩ :=
      node_echoes predicate echoes live calm.left.left checkedTest (calm.left.right.settles settles₃ evolved₃) reads.1
    obtain ⟨kind', b₃, checkedBody', alike, echoes₃⟩ :=
      node_echoes body echoes₂ live₂ calm.left.right checkedBody settles₃ reads.2.1
    obtain ⟨kinds', b₁, checkedRest', alikes, echoes₁⟩ :=
      cases_echoes rest echoes₃ live₃ calm.right checkedRest settles reads.2.2
    exact ⟨kind' :: kinds', b₁, cases_cons_ok.2 ⟨test', b₂, kind', b₃, kinds', checkedTest',
      alikeTest.isCondition.symm.trans accepted, checkedBody', checkedRest', rfl⟩, map_core_cons alike alikes, echoes₁⟩

end

variable {s : Nat} {c c' : Checker}

theorem map_shift_parent {h : TypeHeap} (ordered : h.Ordered) {t : Nat} (live : t < h.next) :
    (h.parent? t).map (shift h.next d) = h.parent? t := by
  obtain ⟨frame, found⟩ := Heap.exists_frame? live
  rw [Heap.parent?, found, Option.bind_some]
  cases above : frame.parent with
  | none => rfl
  | some parent =>
    have older := Nat.lt_trans (ordered t frame parent found above) live
    rw [Option.map_some, shift_of_lt older]

/-- A second check begins where the first has ended. -/
theorem echoes_start {new : String → Prop} (sound : c.heap.Sound) (sound' : c'.heap.Sound)
    (evolved : c.heap.Evolved s new c'.heap) (calm : ∀ name, ¬ new name) (cancelled : c'.cancelled = c.cancelled) :
    Echoes c.heap.next (c'.heap.next - c.heap.next) c'.heap c c' := by
  refine ⟨cancelled, Nat.le_refl _, (Nat.add_sub_of_le evolved.next).symm, sound, sound',
    (TypeHeap.Settles.refl _ c'.heap).before evolved fun _ => calm, ?_, ?_, ?_, ?_, ?_, ?_⟩
  · intro t live
    rw [map_shift_parent sound.ordered live, shift_of_lt live]
    obtain ⟨frame, found⟩ := Heap.exists_frame? live
    obtain ⟨frame', found', evolvedFrame⟩ := evolved.kept t frame found
    rw [Heap.parent?, Heap.parent?, found, found', Option.bind_some, Option.bind_some, evolvedFrame.parent]
  · intro t live
    rw [shift_of_lt live]
    obtain ⟨frame, found⟩ := Heap.exists_frame? live
    obtain ⟨frame', found', evolvedFrame⟩ := evolved.kept t frame found
    rw [found, found', Option.any_some, Option.any_some, evolvedFrame.function]
  · intro t _ name
    rfl
  · intro t above below
    exact absurd below (Nat.not_lt.2 above)
  · intro t above below
    exact absurd below (Nat.not_lt.2 above)
  · intro t _ _
    rfl

/-- What a check that defines nothing in its own frame leaves to a second one. -/
theorem check_again {n : Node} (sound : c.heap.Sound) (live : s < c.heap.next) (plain : ∀ name, n.binds name = false)
    (checked : node s n c = .ok ty c')
    (settled : ∀ v ∈ visits true s n c, v.settled c.heap.next c'.heap = true) :
    ∃ ty' c'', node s n c' = .ok ty' c'' ∧ ty.Alike ty' ∧
      ∀ t < c'.heap.next, ∀ name, (c''.heap.bound t name).map Ty.core = (c'.heap.bound t name).map Ty.core := by
  obtain ⟨sound', evolved, -⟩ := evolved_of_ok sound live checked
  have calm : ∀ name, ¬ n.binds name = true := fun name => Bool.eq_false_iff.1 (plain name)
  have start := echoes_start sound sound' evolved calm (node_cancelled n checked)
  obtain ⟨ty', c'', checked', alike, echoes⟩ :=
    node_echoes n start live (fun _ => plain) checked (.refl _ c'.heap) settled
  rw [shift_of_lt live] at checked'
  refine ⟨ty', c'', checked', alike, ?_⟩
  intro t below name
  by_cases old : t < c.heap.next
  · exact echoes.heap.old t old name
  · have between := echoes.heap.kept t (Nat.not_lt.1 old) (by rwa [Nat.add_sub_of_le evolved.next])
    rw [TypeHeap.bound, TypeHeap.bound, between]

/-- A loop that was checked can be checked again, and leaves all types as they are. Neither
its condition nor its body defines names in the frame around it, and whatever they read of a
name from outside of the loop is the type that the name has when the check ends. -/
theorem loop_checked_again {span : Span} {predicate body : Node} (reachable : c.Reachable) (live : s < c.heap.next)
    (plain : ∀ name, predicate.binds name = false ∧ body.binds name = false)
    (checked : node s (.loop span predicate body) c = .ok ty c')
    (settled : ∀ v ∈ visits true s (.loop span predicate body) c, v.settled c.heap.next c'.heap = true) :
    ∃ ty' c'', node s (.loop span predicate body) c' = .ok ty' c'' ∧
      ∀ t name held, c'.heap.bound t name = some held →
        ∃ held', c''.heap.bound t name = some held' ∧ (held == held') = true := by
  have nothing : ∀ name, (Node.loop span predicate body).binds name = false := by
    intro name
    rw [Node.binds, (plain name).1, (plain name).2, Bool.or_self]
  obtain ⟨ty', c'', checked', -, types⟩ := check_again reachable.sound live nothing checked settled
  refine ⟨ty', c'', checked', ?_⟩
  intro t name held isHeld
  obtain ⟨frame, found, -⟩ := Option.bind_eq_some_iff.1 isHeld
  have same := types t (Heap.lt_next_of_frame? found) name
  rw [isHeld, Option.map_some] at same
  obtain ⟨held', isHeld', alike⟩ := Option.map_eq_some_iff.1 same
  exact ⟨held', isHeld', Ty.Alike.beq alike.symm⟩

/-- A loop without end around these forms. -/
def endless (forms : List Node) : Node :=
  .loop (.point .first) (.atom (.point .first) (.bool true)) (.block (.point .first) forms)

def readX : Node := .atom (.point .first) (.symbol "x")

def assignText : Node := assignX (.atom (.point .first) (.string "a"))

/-- A text is assigned behind the place where a number is wanted. -/
def addsFirst : Node :=
  endless [.call (.point .first) (.atom (.point .first) (.symbol "+")) [readX, .atom (.point .first) (.int "1")],
    assignText]

/-- A loop is checked once and not again. -/
theorem loop_refused_again :
    afterNumber.Reachable ∧ (∀ name, addsFirst.binds name = false) ∧
      (Visit.ty? ⟨TypeHeap.globalScope, addsFirst, afterNumber⟩).isSome = true ∧
      (Visit.ty? ⟨TypeHeap.globalScope, addsFirst,
        Visit.ending ⟨TypeHeap.globalScope, addsFirst, afterNumber⟩⟩).isSome = false :=
  ⟨reachable_afterNumber, fun _ => rfl, by decide +kernel, by decide +kernel⟩

/-- What is read behind the assignment is read again. -/
theorem loop_checked_again_reading :
    let c' := Visit.ending ⟨TypeHeap.globalScope, endless [assignText, readX], afterNumber⟩
    (c'.heap.bound TypeHeap.globalScope "x").map Ty.text = some "(Union Int String)" ∧
      ∃ ty' c'', node TypeHeap.globalScope (endless [assignText, readX]) c' = .ok ty' c'' ∧
        ∀ t name held, c'.heap.bound t name = some held →
          ∃ held', c''.heap.bound t name = some held' ∧ (held == held') = true := by
  intro c'
  refine ⟨by decide +kernel, ?_⟩
  obtain ⟨ty, checked⟩ := Visit.exists_ok (v := ⟨TypeHeap.globalScope, endless [assignText, readX], afterNumber⟩)
    (by decide +kernel)
  exact loop_checked_again reachable_afterNumber (by decide) (fun _ => ⟨rfl, rfl⟩) checked (by decide +kernel)

end CheckedLisp.Check
