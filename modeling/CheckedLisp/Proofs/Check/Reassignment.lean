import CheckedLisp.Proofs.Check.Success
import CheckedLisp.Proofs.Check.Visits

/-! An assignment looks at its target before its value is checked, and widens what the name is bound
to afterwards. Between the two the value may define the name, in the frame of the assignment itself;
if it defines a function there, that function is widened although no function may be assigned to.
There is no other way: where no assignment has a value that defines its target, what is bound to a
function stays bound to one at every moment of a check. -/
namespace CheckedLisp

namespace Node

mutual

/-- Some assignment in the node has a value that may define the target, in the frame of the
assignment. -/
def shadowsTarget : Node → Bool
  | .unit _ | .atom _ _ | .quote _ _ => false
  | .block _ forms => shadowsTargetAny forms
  | .call _ callee args => shadowsTarget callee || shadowsTargetAny args
  | .conditional _ branches otherwise => shadowsTargetCases branches || shadowsTarget otherwise
  | .loop _ predicate body => shadowsTarget predicate || shadowsTarget body
  | .define _ _ value => shadowsTarget value
  | .assign _ name value => value.binds name.text || shadowsTarget value
  | .lambda _ _ _ body => shadowsTarget body
  | .ret _ value => shadowsTarget value

def shadowsTargetAny : List Node → Bool
  | [] => false
  | n :: ns => shadowsTarget n || shadowsTargetAny ns

def shadowsTargetCases : List (Node × Node) → Bool
  | [] => false
  | (predicate, body) :: rest => shadowsTarget predicate || shadowsTarget body || shadowsTargetCases rest

end

end Node

namespace TypeHeap

/-- The frame of `t` itself binds the name to a function. -/
def holdsFunction (h : TypeHeap) (t : Scope) (name : String) : Bool :=
  (h.bound t name).any Ty.isCallable

/-- What was bound to a function is bound to a function. -/
def KeepsFunctions (h h' : TypeHeap) : Prop :=
  ∀ t name, h.holdsFunction t name = true → h'.holdsFunction t name = true

variable {h h' h'' : TypeHeap} {s t : Scope} {new : String → Prop} {name : String}

theorem KeepsFunctions.refl (h : TypeHeap) : h.KeepsFunctions h := fun _ _ holds => holds

theorem KeepsFunctions.trans (first : h.KeepsFunctions h') (second : h'.KeepsFunctions h'') :
    h.KeepsFunctions h'' :=
  fun t name holds => second t name (first t name holds)

theorem holdsFunction_iff :
    h.holdsFunction t name = true ↔ ∃ newest older, h.bound t name = some (.callable newest older) := by
  rw [holdsFunction, Option.any_eq_true]
  constructor
  · rintro ⟨ty, held, callable⟩
    cases ty with
    | callable newest older => exact ⟨newest, older, held⟩
    | _ => cases callable
  · rintro ⟨newest, older, held⟩
    exact ⟨.callable newest older, held, rfl⟩

theorem bindsIn_of_holdsFunction (holds : h.holdsFunction t name = true) : h.bindsIn t name = true := by
  obtain ⟨newest, older, held⟩ := holdsFunction_iff.1 holds
  rw [bindsIn_eq, held, Option.isSome_some]

theorem Evolved.keepsFunctions (evolved : Evolved s new h h') : h.KeepsFunctions h' := by
  intro t name holds
  obtain ⟨newest, older, held⟩ := holdsFunction_iff.1 holds
  obtain ⟨frame, found, bound⟩ := Option.bind_eq_some_iff.1 held
  obtain ⟨frame', found', evolvedFrame⟩ := evolved.kept t frame found
  obtain ⟨ty', bound', evolvedTy⟩ := evolvedFrame.types name _ bound
  obtain ⟨newest', older', rfl, -⟩ := evolvedTy.overloaded newest older rfl
  exact holdsFunction_iff.2 ⟨newest', older', by rw [bound_of_frame? found', bound']⟩

/-- A name that did not mean a function comes to mean one only by a definition in the frame
that definitions go to. -/
theorem Evolved.new_of_holdsFunction (evolved : Evolved s new h h') (ordered : h.Ordered) (ordered' : h'.Ordered)
    (live : s < h.next) {first : Ty} (found : h.lookup s name = some first) (plain : first.isCallable = false)
    (binder : h'.binder? s name = some t) (holds : h'.holdsFunction t name = true) :
    t = s ∧ h.bindsIn s name = false ∧ new name := by
  have onChain : t ∈ h.chain s := by
    rw [← evolved.keeps.chain ordered ordered' live]
    exact List.mem_of_find?_eq_some binder
  obtain ⟨frame, foundFrame⟩ := Heap.exists_frame? (Heap.lt_next_of_mem_chain ordered live onChain)
  obtain ⟨frame', foundFrame', evolvedFrame⟩ := evolved.kept t frame foundFrame
  obtain ⟨newest, older, bound'⟩ := holdsFunction_iff.1 holds
  rw [bound_of_frame? foundFrame'] at bound'
  by_cases old : h.bindsIn t name = true
  · have before := evolved.binder? ordered ordered' live binder old
    have held := Heap.lookup_of_binder? ordered live before
    rw [foundFrame, Option.bind_some, found] at held
    obtain ⟨ty', bound, evolvedTy⟩ := evolvedFrame.types name first held
    cases bound'.symm.trans bound
    cases evolvedTy.data plain
  · have isNamed : name ∈ frame'.names := by
      rw [Frame.mem_names_iff, bound', Option.isSome_some]
    have free : name ∉ frame.names := by
      intro inside
      exact old ((Heap.bindsIn_iff h t name).2 ⟨frame, foundFrame, inside⟩)
    obtain ⟨added, names, each⟩ := evolvedFrame.names
    rw [names] at isNamed
    obtain ⟨rfl, isNew⟩ := each name ((List.mem_append.1 isNamed).resolve_right free)
    exact ⟨rfl, Bool.eq_false_iff.2 old, isNew⟩

theorem keepsFunctions_widen (sound : Sound h) {ty : Ty} (normal : ty.Declared)
    (plain : ∀ t, h.binder? s name = some t → h.holdsFunction t name = false) :
    h.KeepsFunctions (h.widen s name ty).2 := by
  have evolved : Evolved s (fun _ => False) h (h.widen s name ty).2 := by
    apply (Evolved.refl s _ h).widen sound normal
    intro t frame old binder found held
    have data := plain t binder
    rwa [holdsFunction, bound_of_frame? found, held, Option.any_some] at data
  exact evolved.keepsFunctions

end TypeHeap

namespace Check

variable {s : Scope} {c c' : Checker}

/-- The binding that an assignment widens, and when it is a function. -/
theorem assign_widens {span : Span} {name : Name} {v : Node} {ty : Ty} (sound : c.heap.Sound) (live : s < c.heap.next)
    (checked : node s (.assign span name v) c = .ok ty c') :
    ∃ kind c₁ t old, node s v c = .ok kind c₁ ∧ c₁.heap.binder? s name.text = some t ∧
      c₁.heap.bound t name.text = some old ∧
      c' = { c₁ with heap := Heap.modify c₁.heap t (·.rebind name.text (.join [old, kind])) } ∧
      (old.isCallable = true ↔ c.heap.bindsIn s name.text = false ∧ c₁.heap.holdsFunction s name.text = true) ∧
      (old.isCallable = true → v.binds name.text = true) := by
  obtain ⟨-, first, kind, c₁, found, plain, checkedValue, rfl, -⟩ := node_assign_ok.1 checked
  obtain ⟨sound₁, evolved, -⟩ := evolved_of_ok sound live checkedValue
  have live₁ := Nat.lt_of_lt_of_le live evolved.next
  have seen : c₁.heap.Sees s name.text := by
    apply evolved.stillSees sound.ordered sound₁.ordered live
    rw [Heap.sees_iff_lookup, found, Option.isSome_some]
  obtain ⟨old, isOld⟩ := Option.isSome_iff_exists.1 ((Heap.sees_iff_lookup _ _ _).1 seen)
  obtain ⟨t, binder, held⟩ : ∃ t, c₁.heap.binder? s name.text = some t ∧ c₁.heap.bound t name.text = some old :=
    Heap.exists_binder? sound₁.ordered live₁ isOld
  have holds_iff : c₁.heap.holdsFunction t name.text = true ↔ old.isCallable = true := by
    rw [TypeHeap.holdsFunction, held, Option.any_some]
  have shadowed : old.isCallable = true → t = s ∧ c.heap.bindsIn s name.text = false ∧ v.binds name.text = true := by
    intro callable
    exact evolved.new_of_holdsFunction sound.ordered sound₁.ordered live found plain binder (holds_iff.2 callable)
  refine ⟨kind, c₁, t, old, checkedValue, binder, held, ?_, ⟨?_, ?_⟩, fun callable => (shadowed callable).2.2⟩
  · rw [TypeHeap.widen_of_binder binder held]
  · intro callable
    obtain ⟨rfl, free, -⟩ := shadowed callable
    exact ⟨free, holds_iff.2 callable⟩
  · rintro ⟨-, holds⟩
    have own := Heap.binder?_self sound₁.ordered (TypeHeap.bindsIn_of_holdsFunction holds)
    cases binder.symm.trans own
    exact holds_iff.1 holds

/-- Checkers that a check passes on its way from `c` to `c'`, none of which has lost a
function. -/
def Along (c : Checker) (between : List Checker) (c' : Checker) : Prop :=
  (c :: between ++ [c']).IsChain fun d d' => d.heap.KeepsFunctions d'.heap

section

variable {α β : Type} {c₁ : Checker} {first second : List Checker}

theorem Along.step (keeps : c.heap.KeepsFunctions c'.heap) : Along c [] c' := by
  simpa [Along] using keeps

theorem along_cons : Along c (c₁ :: first) c' ↔ c.heap.KeepsFunctions c₁.heap ∧ Along c₁ first c' := by
  simp only [Along, List.cons_append, List.isChain_cons_cons]

theorem Along.after (keeps : c.heap.KeepsFunctions c₁.heap) (rest : Along c₁ first c') : Along c first c' := by
  cases first with
  | nil =>
    have last : c₁.heap.KeepsFunctions c'.heap := by simpa [Along] using rest
    exact .step (keeps.trans last)
  | cons d first =>
    obtain ⟨next, rest⟩ := along_cons.1 rest
    exact along_cons.2 ⟨keeps.trans next, rest⟩

theorem Along.append (before : Along c first c₁) (rest : Along c₁ second c') : Along c (first ++ second) c' := by
  induction first generalizing c with
  | nil =>
    have keeps : c.heap.KeepsFunctions c₁.heap := by simpa [Along] using before
    exact rest.after keeps
  | cons d first ih =>
    obtain ⟨next, before⟩ := along_cons.1 before
    exact along_cons.2 ⟨next, ih before⟩

theorem Along.bind {x : Action α} {next : α → Action β} {visited : List Visit} {met : α → Checker → List Visit}
    (before : Along c (visited.map Visit.ending) (Ending.checker (x c)))
    (rest : ∀ a c₁, x c = .ok a c₁ → Along c₁ ((met a c₁).map Visit.ending) (Ending.checker (next a c₁))) :
    Along c ((visited ++ following x c met).map Visit.ending) (Ending.checker ((x >>= next) c)) := by
  rw [List.map_append, Sequencing.bind_apply, following]
  cases run : x c with
  | ok a c₁ =>
    rw [run] at before
    exact before.append (rest a c₁ run)
  | error failure c₁ =>
    rw [run] at before
    rw [List.map_nil, List.append_nil]
    exact before

/-- A part of a check that visits nothing. -/
theorem Along.pass {x : Action α} {next : α → Action β} {met : α → Checker → List Visit}
    (keeps : c.heap.KeepsFunctions (Ending.checker (x c)).heap)
    (rest : ∀ a c₁, x c = .ok a c₁ → Along c₁ ((met a c₁).map Visit.ending) (Ending.checker (next a c₁))) :
    Along c ((following x c met).map Visit.ending) (Ending.checker ((x >>= next) c)) := by
  have before : Along c (([] : List Visit).map Visit.ending) (Ending.checker (x c)) := .step keeps
  exact before.bind rest

/-- The last part of a check visits nothing more. -/
theorem Along.finish {x : Action α} {next : α → Action β} {visited : List Visit}
    (before : Along c (visited.map Visit.ending) (Ending.checker (x c)))
    (rest : ∀ a c₁, x c = .ok a c₁ → c₁.heap.KeepsFunctions (Ending.checker (next a c₁)).heap) :
    Along c (visited.map Visit.ending) (Ending.checker ((x >>= next) c)) := by
  have both : Along c ((visited ++ following x c fun _ _ => []).map Visit.ending) (Ending.checker ((x >>= next) c)) :=
    before.bind fun a c₁ run => .step (rest a c₁ run)
  have nothing : following x c (fun _ _ => ([] : List Visit)) = [] := by
    rw [following]
    cases x c <;> rfl
  rwa [nothing, List.append_nil] at both

theorem Along.ticked {next : Action α} {span : Span} {inside : List Visit}
    (rest : Along c (inside.map Visit.ending) (Ending.checker (next c))) :
    Along c ((if c.cancelled then [] else inside).map Visit.ending)
      (Ending.checker ((tick span >>= fun _ => next) c)) := by
  rw [Sequencing.bind_apply, tick]
  cases c.cancelled with
  | true => exact .step (.refl c.heap)
  | false => exact rest

theorem Along.leave {s : Scope} {n : Node} {inside : List Visit}
    (rest : Along c ((if c.cancelled then [] else inside).map Visit.ending) (Ending.checker (node s n c))) :
    Along c ((leave s n c inside).map Visit.ending) (Ending.checker (node s n c)) := by
  rw [Check.leave, List.map_append]
  exact rest.append (along_cons.2 ⟨.refl _, .step (.refl _)⟩)

end

theorem Ended.keepsFunctions {α : Type} [Typed α] {r : Ending α} (ended : Ended s (fun _ => True) c r) :
    c.heap.KeepsFunctions r.checker.heap :=
  ended.evolved.keepsFunctions

theorem along_lambda (sound : c.heap.Sound) (live : s < c.heap.next) (self : Option String) (span : Span)
    (params : List Name) (doc : Option String) {body : Node}
    (checks : ∀ frame c', c'.heap.Sound → frame < c'.heap.next →
      Along c' ((leave frame body c' (visitsInside true frame body c')).map Visit.ending)
        (Ending.checker (node frame body c'))) :
    Along c ((following (openLambda s self span params doc) c fun opening c =>
        leave opening.frame body c (visitsInside true opening.frame body c)).map Visit.ending)
      (Ending.checker (lambda s self span params doc (fun frame => node frame body) c)) := by
  rw [lambda_eq]
  rcases openLambda_cases sound live self span params doc with ⟨failure, refused⟩ | ⟨opening, c₁, opens, spec⟩
  · rw [Sequencing.bind_apply, following, refused]
    exact .step (.refl c.heap)
  rw [Sequencing.bind_apply, following_ok opens, opens]
  apply Along.after (spec.inside.evolved s fun _ => True).keepsFunctions
  apply (checks opening.frame c₁ spec.inside.sound spec.inside.live).finish
  intro last c₂ checkedBody
  obtain ⟨sound₂, -, normal⟩ := evolved_of_ok spec.inside.sound spec.inside.live checkedBody
  exact (ended_closeLambda (s := s) sound₂ span spec.tys spec.declared normal).keepsFunctions

mutual

/-- No function is lost while a node is checked, whether or not that succeeds. -/
theorem node_along (n : Node) {s : Scope} {c : Checker} (sound : c.heap.Sound) (live : s < c.heap.next)
    (clear : n.shadowsTarget = false) :
    Along c ((leave s n c (visitsInside true s n c)).map Visit.ending) (Ending.checker (node s n c)) := by
  apply Along.leave
  cases n with
  | unit span =>
    simp only [node]
    exact .ticked (.step (.refl c.heap))
  | atom span value =>
    simp only [node]
    exact .ticked (.step (ended_atom (s := s) sound span value).keepsFunctions)
  | block span forms =>
    simp only [node]
    apply Along.ticked
    have inside : Along (opened c s none) ((visitsAll true c.heap.next forms (opened c s none)).map Visit.ending)
        (Ending.checker (sequence c.heap.next .unit forms (opened c s none))) :=
      sequence_along forms (sound.child live) (Heap.lt_next_add c.heap (some s) none) clear
    exact inside.after (TypeHeap.evolved_add s (fun _ => True) c.heap (some s) none).keepsFunctions
  | call span callee args =>
    simp only [Node.shadowsTarget, Bool.or_eq_false_iff] at clear
    simp only [node, visitsInside]
    apply Along.ticked
    apply (node_along callee sound live clear.1).bind
    intro function c₁ checked
    obtain ⟨sound₁, evolved, normal⟩ := evolved_of_ok sound live checked
    have live₁ := Nat.lt_of_lt_of_le live evolved.next
    apply (nodes_along args sound₁ live₁ clear.2).finish
    intro tys c₂ checkedArgs
    have sound₂ := ((nodes_ended args sound₁ live₁).next checkedArgs live₁).1
    exact (ended_call (s := s) sound₂ span callee tys normal).keepsFunctions
  | conditional span branches otherwise =>
    simp only [Node.shadowsTarget, Bool.or_eq_false_iff] at clear
    simp only [node, visitsInside]
    apply Along.ticked
    apply (cases_along branches sound live clear.1).bind
    intro bodies c₁ checked
    obtain ⟨sound₁, live₁⟩ := (cases_ended branches sound live).next checked live
    apply (node_along otherwise sound₁ live₁ clear.2).finish
    intro last c₂ _
    exact .refl c₂.heap
  | loop span predicate body =>
    simp only [Node.shadowsTarget, Bool.or_eq_false_iff] at clear
    simp only [node, visitsInside]
    apply Along.ticked
    apply (node_along predicate sound live clear.1).bind
    intro ty c₁ checked
    obtain ⟨sound₁, evolved, -⟩ := evolved_of_ok sound live checked
    have live₁ := Nat.lt_of_lt_of_le live evolved.next
    apply Along.pass (ended_condition (s := s) sound₁ predicate.span ty).keepsFunctions
    intro _ c₂ passed
    obtain ⟨-, rfl⟩ := condition_ok.1 passed
    apply (node_along body sound₁ live₁ clear.2).finish
    intro last c₃ _
    exact .refl c₃.heap
  | define span name v =>
    rw [node_define]
    apply Along.ticked
    have inside : Along c ((visitsInside true s (.define span name v) c).map Visit.ending)
        (Ending.checker (value s name.text v c)) := by
      cases v with
      | lambda lambdaSpan params doc body =>
        simp only [visitsInside, if_true]
        apply along_lambda sound live
        intro frame c' sound' live'
        exact node_along body sound' live' clear
      | _ => exact node_along _ sound live clear
    apply inside.finish
    intro ty c₁ checked
    obtain ⟨sound₁, -, normal⟩ := value_evolved_of_ok sound live checked
    exact Ended.keepsFunctions (ended_bind (s := s) sound₁ trivial normal)
  | assign span name v =>
    simp only [Node.shadowsTarget, Bool.or_eq_false_iff] at clear
    simp only [node, visitsInside]
    apply Along.ticked
    apply Along.pass (ended_target (s := s) sound name).keepsFunctions
    intro _ c₁ allowed
    obtain ⟨⟨first, found, plain⟩, rfl⟩ := target_ok.1 allowed
    apply (node_along v sound live clear.2).finish
    intro kind c₁ checked
    obtain ⟨sound₁, evolved, normal⟩ := evolved_of_ok sound live checked
    apply TypeHeap.keepsFunctions_widen sound₁ normal
    intro t binder
    rw [Bool.eq_false_iff]
    intro holds
    have shadowed := evolved.new_of_holdsFunction sound.ordered sound₁.ordered live found plain binder holds
    exact Bool.eq_false_iff.1 clear.1 shadowed.2.2
  | lambda span params doc body =>
    simp only [node, visitsInside, if_true]
    apply Along.ticked
    apply along_lambda sound live
    intro frame c' sound' live'
    exact node_along body sound' live' clear
  | quote span inner =>
    simp only [node]
    exact .ticked (.step (.refl c.heap))
  | ret span v =>
    simp only [node, visitsInside]
    apply Along.ticked
    apply (node_along v sound live clear).finish
    intro ty c₁ checked
    obtain ⟨sound₁, -, normal⟩ := evolved_of_ok sound live checked
    have recorded := (ended_recordReturn (s := s) sound₁ normal).keepsFunctions
    rw [Sequencing.bind_apply]
    cases run : change (·.recordReturn s ty) c₁ with
    | ok done c₂ =>
      rw [run] at recorded
      cases done <;> exact recorded
    | error failure c₂ =>
      rw [run] at recorded
      exact recorded

theorem sequence_along (forms : List Node) {s : Scope} {c : Checker} {last : Ty} (sound : c.heap.Sound)
    (live : s < c.heap.next) (clear : Node.shadowsTargetAny forms = false) :
    Along c ((visitsAll true s forms c).map Visit.ending) (Ending.checker (sequence s last forms c)) := by
  cases forms with
  | nil => exact .step (.refl c.heap)
  | cons form forms =>
    simp only [Node.shadowsTargetAny, Bool.or_eq_false_iff] at clear
    simp only [sequence, visitsAll]
    apply (node_along form sound live clear.1).bind
    intro ty c₁ checked
    obtain ⟨sound₁, evolved, -⟩ := evolved_of_ok sound live checked
    exact sequence_along forms sound₁ (Nat.lt_of_lt_of_le live evolved.next) clear.2

theorem nodes_along (ns : List Node) {s : Scope} {c : Checker} (sound : c.heap.Sound) (live : s < c.heap.next)
    (clear : Node.shadowsTargetAny ns = false) :
    Along c ((visitsAll true s ns c).map Visit.ending) (Ending.checker (nodes s ns c)) := by
  cases ns with
  | nil => exact .step (.refl c.heap)
  | cons n ns =>
    simp only [Node.shadowsTargetAny, Bool.or_eq_false_iff] at clear
    simp only [nodes, visitsAll]
    apply (node_along n sound live clear.1).bind
    intro ty c₁ checked
    obtain ⟨sound₁, evolved, -⟩ := evolved_of_ok sound live checked
    apply (nodes_along ns sound₁ (Nat.lt_of_lt_of_le live evolved.next) clear.2).finish
    intro tys c₂ _
    exact .refl c₂.heap

theorem cases_along (branches : List (Node × Node)) {s : Scope} {c : Checker} (sound : c.heap.Sound)
    (live : s < c.heap.next) (clear : Node.shadowsTargetCases branches = false) :
    Along c ((visitsCases true s branches c).map Visit.ending) (Ending.checker (cases s branches c)) := by
  match branches with
  | [] => exact .step (.refl c.heap)
  | (predicate, body) :: rest =>
    simp only [Node.shadowsTargetCases, Bool.or_eq_false_iff] at clear
    simp only [cases, visitsCases]
    apply (node_along predicate sound live clear.1.1).bind
    intro ty c₁ checked
    obtain ⟨sound₁, evolved₁, -⟩ := evolved_of_ok sound live checked
    have live₁ := Nat.lt_of_lt_of_le live evolved₁.next
    apply Along.pass (ended_condition (s := s) sound₁ predicate.span ty).keepsFunctions
    intro _ c₂ passed
    obtain ⟨-, rfl⟩ := condition_ok.1 passed
    apply (node_along body sound₁ live₁ clear.1.2).bind
    intro kind c₂ checkedBody
    obtain ⟨sound₂, evolved₂, -⟩ := evolved_of_ok sound₁ live₁ checkedBody
    apply (cases_along rest sound₂ (Nat.lt_of_lt_of_le live₁ evolved₂.next) clear.2).finish
    intro kinds c₃ _
    exact .refl c₃.heap

end

/-- An assignment widens a function exactly if its value has defined that function in the
frame of the assignment, which did not bind the name before. Where no assignment has a value
that may define its target, every function stays a function from the end of each node to the
end of the next, however the check ends. -/
theorem reassigns_iff_shadowed (reachable : c.Reachable) (live : s < c.heap.next) :
    (∀ span name v ty c', node s (.assign span name v) c = .ok ty c' →
      ∃ kind c₁ t old, node s v c = .ok kind c₁ ∧ c₁.heap.binder? s name.text = some t ∧
        c₁.heap.bound t name.text = some old ∧
        c' = { c₁ with heap := Heap.modify c₁.heap t (·.rebind name.text (.join [old, kind])) } ∧
        (old.isCallable = true ↔ c.heap.bindsIn s name.text = false ∧ c₁.heap.holdsFunction s name.text = true) ∧
        (old.isCallable = true → v.binds name.text = true)) ∧
    ∀ n : Node, n.shadowsTarget = false →
      (c :: (visits true s n c).map Visit.ending).IsChain fun d d' => d.heap.KeepsFunctions d'.heap := by
  have sound := reachable.sound
  constructor
  · intro span name v ty c' checked
    exact assign_widens sound live checked
  · intro n clear
    exact (node_along n sound live clear).left_of_append

/-- `x` is assigned to. -/
def assignX (value : Node) : Node := .assign (.point .first) ⟨"x", .point .first⟩ value

/-- `x` is defined as a function, where a value is wanted. -/
def defineX : Node :=
  .define (.point .first) ⟨"x", .point .first⟩ (.lambda (.point .first) [] none (.atom (.point .first) (.int "2")))

/-- `x` is bound to a number. -/
def afterNumber : Checker :=
  Ending.checker (node TypeHeap.globalScope
    (.define (.point .first) ⟨"x", .point .first⟩ (.atom (.point .first) (.int "1"))) .start)

theorem reachable_afterNumber : afterNumber.Reachable := .check TypeHeap.globalScope _ .start (by decide)

/-- A block is opened where `x` is bound to a number. -/
def blockUnderNumber : Checker := opened afterNumber TypeHeap.globalScope none

theorem reachable_blockUnderNumber : blockUnderNumber.Reachable :=
  .child TypeHeap.globalScope reachable_afterNumber (by decide)

/-- A function is assigned to: when the target was looked at, the name meant a number. -/
theorem function_reassigned :
    blockUnderNumber.Reachable ∧ (Visit.ty? ⟨1, assignX defineX, blockUnderNumber⟩).map Ty.text = some "Unit" ∧
      (Visit.ending ⟨1, defineX, blockUnderNumber⟩).heap.binder? 1 "x" = some 1 ∧
      (Visit.ending ⟨1, defineX, blockUnderNumber⟩).heap.holdsFunction 1 "x" = true ∧
      (Visit.ending ⟨1, assignX defineX, blockUnderNumber⟩).heap.holdsFunction 1 "x" = false :=
  ⟨reachable_blockUnderNumber, by decide +kernel, by decide +kernel, by decide +kernel, by decide +kernel⟩

theorem reassigns_iff_shadowed_block :
    (∃ (ty : Ty) (c' : Checker), node 1 (assignX defineX) blockUnderNumber = .ok ty c' ∧
      ∃ (kind : Ty) (c₁ : Checker) (old : Ty), node 1 defineX blockUnderNumber = .ok kind c₁ ∧
        c₁.heap.bound 1 "x" = some old ∧ old.isCallable = true ∧
        c' = { c₁ with heap := Heap.modify c₁.heap 1 (·.rebind "x" (.join [old, kind])) }) ∧
    (blockUnderNumber :: (visits true 1 (assignX (.atom (.point .first) (.string "a"))) blockUnderNumber).map
      Visit.ending).IsChain fun d d' => d.heap.KeepsFunctions d'.heap := by
  obtain ⟨widens, keeps⟩ := reassigns_iff_shadowed reachable_blockUnderNumber (s := 1) (by decide)
  refine ⟨?_, keeps (assignX _) rfl⟩
  have accepted : (Visit.ty? ⟨1, assignX defineX, blockUnderNumber⟩).map Ty.text = some "Unit" := by decide +kernel
  cases checked : node 1 (assignX defineX) blockUnderNumber with
  | error failure c' =>
    rw [Visit.ty?, checked] at accepted
    cases accepted
  | ok ty c' =>
    obtain ⟨kind, c₁, t, old, checkedValue, binder, held, same, callable, -⟩ := widens _ _ _ ty c' checked
    have after : (Visit.ending ⟨1, defineX, blockUnderNumber⟩).heap.binder? 1 "x" = some 1 ∧
        (Visit.ending ⟨1, defineX, blockUnderNumber⟩).heap.holdsFunction 1 "x" = true := by decide +kernel
    rw [Visit.ending, checkedValue] at after
    cases binder.symm.trans after.1
    exact ⟨ty, c', rfl, kind, c₁, old, checkedValue, held, callable.2 ⟨by decide +kernel, after.2⟩, same⟩

end Check

end CheckedLisp
