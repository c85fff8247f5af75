import CheckedLisp.Proofs.Check.Evolution
import CheckedLisp.Proofs.Check.Widening
import CheckedLisp.Proofs.Node.Binding

/-! However a check ends, it has defined names in the frame of its scope alone, and otherwise only
widened. The helper frames of a lambda, with the name that it has for itself while its body is
checked, are seen from no frame that was there before. -/
namespace CheckedLisp.Check

open Sequencing

/-- Results of checking, and what it means that the types in them are in normal form. -/
class Typed (α : Type) where
  Normal : α → Prop

instance : Typed Ty := ⟨Ty.Declared⟩

instance : Typed (List Ty) := ⟨fun tys => ∀ ty ∈ tys, ty.Declared⟩

instance : Typed (Option Ty) := ⟨fun found => ∀ ty ∈ found, ty.Declared⟩

instance {α β : Type} [Typed α] [Typed β] : Typed (α × β) :=
  ⟨fun both => Typed.Normal both.1 ∧ Typed.Normal both.2⟩

instance : Typed Bool := ⟨fun _ => True⟩

instance : Typed Unit := ⟨fun _ => True⟩

abbrev Ending (α : Type) := EStateM.Result Failure Checker α

/-- The checker as an action leaves it, whether it failed or not. -/
def Ending.checker {α : Type} : Ending α → Checker
  | .ok _ c | .error _ c => c

section

variable {α β : Type} [Typed α] [Typed β] {s t : Scope} {new new' : String → Prop} {c c' : Checker}

def GivenNormal : Ending α → Prop
  | .ok a _ => Typed.Normal a
  | .error _ _ => True

/-- How a check on `c` ends when it defines names in `s` alone, and only such that `new`
holds of them. -/
structure Ended (s : Scope) (new : String → Prop) (c : Checker) (r : Ending α) : Prop where
  sound : r.checker.heap.Sound
  evolved : c.heap.Evolved s new r.checker.heap
  normal : GivenNormal r

theorem Ended.ok {a : α} (sound : c.heap.Sound) (normal : Typed.Normal a) : Ended s new c (.ok a c) :=
  ⟨sound, .refl s new c.heap, normal⟩

theorem ended_fail (sound : c.heap.Sound) (span : Span) (fault : Fault) :
    Ended s new c ((fail span fault : Action α) c) :=
  ⟨sound, .refl s new c.heap, trivial⟩

theorem Ended.after {r : Ending α} (ended : Ended t new' c' r) (before : c.heap.Evolved s new c'.heap)
    (inside : (t = s ∧ ∀ name, new' name → new name) ∨ c.heap.next ≤ t) : Ended s new c r :=
  ⟨ended.sound, before.trans ended.evolved inside, ended.normal⟩

theorem Ended.mono {r : Ending α} (ended : Ended s new c r) (weaker : ∀ name, new name → new' name) :
    Ended s new' c r :=
  ⟨ended.sound, ended.evolved.mono weaker, ended.normal⟩

theorem Ended.bind {x : Action α} {next : α → Action β} (first : Ended s new c (x c))
    (second : ∀ a c', x c = .ok a c' → c'.heap.Sound → c.heap.next ≤ c'.heap.next → Typed.Normal a →
      Ended s new c' (next a c')) : Ended s new c ((x >>= next) c) := by
  rw [bind_apply]
  cases run : x c with
  | ok a c' =>
    rw [run] at first
    exact (second a c' run first.sound first.evolved.next first.normal).after first.evolved
      (.inl ⟨rfl, fun _ isNew => isNew⟩)
  | error e c' =>
    rw [run] at first
    exact ⟨first.sound, first.evolved, trivial⟩

theorem Ended.next {x : Action α} {a : α} (ended : Ended s new c (x c)) (done : x c = .ok a c')
    (live : s < c.heap.next) : c'.heap.Sound ∧ s < c'.heap.next := by
  rw [done] at ended
  exact ⟨ended.sound, Nat.lt_of_lt_of_le live ended.evolved.next⟩

/-- A part may define fewer names than the whole. -/
theorem Ended.part {x : Action α} {next : α → Action β} (first : Ended s new' c (x c))
    (weaker : ∀ name, new' name → new name)
    (second : ∀ a c', x c = .ok a c' → c'.heap.Sound → c.heap.next ≤ c'.heap.next → Typed.Normal a →
      Ended s new c' (next a c')) : Ended s new c ((x >>= next) c) :=
  (first.mono weaker).bind second

/-- Opening a frame inside a live one. -/
def opened (c : Checker) (parent : Scope) (function : Option (List Ty)) : Checker :=
  { c with heap := c.heap.add (some parent) function }

/-- Work in a frame that was just opened touches no older frame. -/
theorem ended_enter {next : Scope → Action α} {parent : Scope} {function : Option (List Ty)}
    (second : Ended c.heap.next new' (opened c parent function)
      (next c.heap.next (opened c parent function))) :
    Ended s new c ((enter parent function >>= next) c) :=
  second.after (TypeHeap.evolved_add s new c.heap (some parent) function) (.inr (Nat.le_refl _))

theorem ended_tick (sound : c.heap.Sound) (span : Span) : Ended s new c (tick span c) := by
  unfold tick
  split
  · exact ⟨sound, .refl s new c.heap, trivial⟩
  · exact .ok sound trivial

/-- Most checks go on from where they were when their node was paid for. -/
theorem Ended.ticked {next : Action α} (sound : c.heap.Sound) (span : Span) (rest : Ended s new c (next c)) :
    Ended s new c ((tick span >>= fun _ => next) c) := by
  apply (ended_tick sound span).bind
  intro _ c' ticked _ _ _
  cases tick_eq_ok ticked
  exact rest

theorem ended_atom (sound : c.heap.Sound) (span : Span) (value : Atom) :
    Ended s new c (atom s span value c) := by
  cases value with
  | symbol name =>
    have looked : Ended s new c (lookup s name c) := .ok sound fun _ found => sound.lookup found
    apply looked.bind
    intro found c' _ sound' _ normal
    cases found with
    | some ty => exact .ok sound' (normal ty rfl)
    | none => exact ended_fail sound' _ _
  | bool => exact .ok sound .bool
  | int => exact .ok sound .int
  | float => exact .ok sound .float
  | string => exact .ok sound .string

theorem ended_condition (sound : c.heap.Sound) (span : Span) (ty : Ty) :
    Ended s new c (condition span ty c) := by
  unfold condition
  split
  · exact .ok sound trivial
  · exact ended_fail sound _ _

/-- A call has the type that one of the signatures declares. -/
theorem declared_of_callOverloads {newest : Signature Ty} {older : List (Signature Ty)} {args : List Ty} {ty : Ty}
    (normal : (Ty.callable newest older).Declared) (called : callOverloads (newest :: older) args = .ok ty) :
    ty.Declared := by
  cases normal with
  | callable ruled _ ret =>
    obtain ⟨signature, inside, _, invoked⟩ := exists_of_callOverloads called
    rw [Signature.invoke_declared (ruled signature inside)] at invoked
    exact Except.ok.inj invoked ▸ ret signature inside

theorem ended_call (sound : c.heap.Sound) (span : Span) (callee : Node) (args : List Ty) {function : Ty}
    (normal : function.Declared) : Ended s new c (call span callee args function c) := by
  cases function with
  | callable newest older =>
    simp only [call]
    cases called : callOverloads (newest :: older) args with
    | ok ty => exact .ok sound (declared_of_callOverloads normal called)
    | error fault => exact ended_fail sound _ _
  | any => exact .ok sound .any
  | _ => exact ended_fail sound _ _

theorem ended_define (sound : c.heap.Sound) {name : String} (isNew : new name) {ty : Ty}
    (normal : ty.Declared) : Ended s new c (define s name ty c) :=
  ⟨sound.define s name normal, TypeHeap.evolved_define c.heap s isNew ty, trivial⟩

theorem ended_bind (sound : c.heap.Sound) {name : Name} (isNew : new name.text) {ty : Ty}
    (normal : ty.Declared) : Ended s new c (Check.bind s name ty c) := by
  apply (ended_define sound isNew normal).bind
  intro done c' _ sound' _ _
  cases done with
  | true => exact .ok sound' .unit
  | false => exact ended_fail sound' _ _

theorem ended_target (sound : c.heap.Sound) (name : Name) : Ended s new c (target s name c) := by
  have looked : Ended s new c (lookup s name.text c) := .ok sound fun _ found => sound.lookup found
  apply looked.bind
  intro found c' _ sound' _ _
  cases found with
  | none => exact ended_fail sound' _ _
  | some ty =>
    dsimp only
    split
    · exact ended_fail sound' _ _
    · exact .ok sound' trivial

theorem ended_recordReturn (sound : c.heap.Sound) {ty : Ty} (normal : ty.Declared) :
    Ended s new c (change (·.recordReturn s ty) c) :=
  ⟨sound.recordReturn s normal, TypeHeap.evolved_recordReturn c.heap s s new ty, trivial⟩

theorem ended_takeReturns (sound : c.heap.Sound) (frame : Scope) :
    Ended s new c (takeReturns frame c) :=
  ⟨sound.clearReturns frame, TypeHeap.evolved_clearReturns c.heap s frame new, sound.returns frame⟩

/-- Reading the signature of a lambda changes nothing. -/
theorem signature_cases (span : Span) (params : List Name) (doc : Option String) (c : Checker) :
    (∃ failure, signature span params doc c = .error failure c) ∨
      ∃ tys declared, signature span params doc c = .ok (tys, declared) c ∧
        (∀ ty ∈ tys, ty.Declared) ∧ ∀ ty ∈ declared, ty.Declared := by
  have undeclared : (∀ ty ∈ params.map fun _ => Ty.any, ty.Declared) ∧
      ∀ ty ∈ (none : Option Ty), ty.Declared := by
    constructor
    · intro ty inside
      obtain ⟨_, _, rfl⟩ := List.mem_map.1 inside
      exact .any
    · intro ty none
      cases none
  simp only [signature]
  match read : doc.map TypeText.ofDoc with
  | none | some (.ok none) => exact .inr ⟨_, _, rfl, undeclared⟩
  | some (.error fault) => exact .inl ⟨_, rfl⟩
  | some (.ok (some (.callable declared older))) =>
    obtain ⟨text, rfl, found⟩ := Option.map_eq_some_iff.1 read
    dsimp only
    split
    · exact .inl ⟨_, rfl⟩
    · cases declared.params.find? Ty.isVariadic with
      | some param => exact .inl ⟨_, rfl⟩
      | none =>
        cases TypeText.declared_of_doc found with
        | callable _ normalParams normalRet =>
          refine .inr ⟨_, _, rfl, normalParams declared List.mem_cons_self, ?_⟩
          intro ty isRet
          cases isRet
          exact normalRet declared List.mem_cons_self
  | some (.ok (some .unit)) | some (.ok (some .bool)) | some (.ok (some .int)) | some (.ok (some .float))
  | some (.ok (some .string)) | some (.ok (some .any)) | some (.ok (some .ellipsis))
  | some (.ok (some (.union _))) | some (.ok (some (.variadic _))) => exact .inr ⟨_, _, rfl, undeclared⟩

theorem exists_bindAll (frame : Scope) (params : List Name) (tys : List Ty) (c : Checker) :
    ∃ c', bindAll frame params tys c = .ok () c' := by
  induction params generalizing tys c with
  | nil => exact ⟨c, rfl⟩
  | cons param params ih =>
    cases tys with
    | nil => exact ⟨c, rfl⟩
    | cons ty tys =>
      have defined : define frame param.text ty c = .ok (c.heap.define frame param.text ty).1
          { c with heap := (c.heap.define frame param.text ty).2 } := rfl
      obtain ⟨c', bound⟩ := ih tys { c with heap := (c.heap.define frame param.text ty).2 }
      exact ⟨c', by simp only [bindAll, bind_apply, defined, bound]⟩

theorem ended_bindAll (sound : c.heap.Sound) (params : List Name) {tys : List Ty}
    (normal : ∀ ty ∈ tys, ty.Declared) (isNew : ∀ param ∈ params, new param.text) :
    Ended s new c (bindAll s params tys c) := by
  induction params generalizing tys c with
  | nil => exact .ok sound trivial
  | cons param params ih =>
    cases tys with
    | nil => exact .ok sound trivial
    | cons ty tys =>
      obtain ⟨newParam, newParams⟩ := List.forall_mem_cons.1 isNew
      obtain ⟨normalTy, normalTys⟩ := List.forall_mem_cons.1 normal
      apply (ended_define sound newParam normalTy).bind
      intro _ c' _ sound' _ _
      exact ih sound' normalTys newParams

/-- A scope `t` opened inside `s` since `c`: of all that it sees more than `s` did, `names`
holds, and nothing older has changed. -/
structure Inside (s : Scope) (names : String → Prop) (c c' : Checker) (t : Scope) : Prop where
  sound : c'.heap.Sound
  evolved : ∀ u new, c.heap.Evolved u new c'.heap
  live : t < c'.heap.next
  sees : ∀ name, c'.heap.Sees t name → names name ∨ c.heap.Sees s name

variable {names : String → Prop}

theorem Inside.refl (sound : c.heap.Sound) (live : s < c.heap.next) : Inside s names c c s :=
  ⟨sound, fun u new => .refl u new c.heap, live, fun _ seen => .inr seen⟩

theorem Inside.opened (inside : Inside s names c c' t) (function : Option (List Ty))
    (empty : ∀ gathered ∈ function, gathered = []) :
    Inside s names c (opened c' t function) c'.heap.next where
  sound := inside.sound.add inside.live empty
  evolved u new := by
    have added := TypeHeap.evolved_add u new c'.heap (some t) function
    exact (inside.evolved u new).trans added (.inl ⟨rfl, fun _ isNew => isNew⟩)
  live := Heap.lt_next_add c'.heap (some t) function
  sees name seen := by
    apply inside.sees name
    exact (Heap.sees_add_next inside.sound.ordered inside.live function name).1 seen

theorem Inside.after {c'' : Checker} {a : α} (inside : Inside s names c c' t) (younger : c.heap.next ≤ t)
    (ended : Ended t names c' (.ok a c'')) : Inside s names c c'' t where
  sound := ended.sound
  evolved u new := (inside.evolved u new).trans ended.evolved (.inr younger)
  live := Nat.lt_of_lt_of_le inside.live ended.evolved.next
  sees name seen := by
    rcases ended.evolved.sees inside.sound.ordered ended.sound.ordered inside.live seen with old | isNew
    · exact inside.sees name old
    · exact .inl isNew

/-- A lambda whose frames are open: the types of its parameters, the result that its doc
string declares, and its frame. -/
structure Opening where
  tys : List Ty
  declared : Option Ty
  frame : Scope

def openLambda (scope : Scope) (self : Option String) (span : Span) (params : List Name)
    (doc : Option String) : Action Opening := do
  let (tys, declared) ← signature span params doc
  let outer ← around scope self (.function tys (declared.getD .any))
  let frame ← enter outer (some [])
  bindAll frame params tys
  return ⟨tys, declared, frame⟩

/-- The type of a lambda whose body has the type `last`. -/
def closeLambda (span : Span) (opening : Opening) (last : Ty) : Action Ty := do
  let returned ← takeReturns opening.frame
  let inferred := Ty.join (returned ++ [last])
  match opening.declared with
  | none => return .function opening.tys inferred
  | some ret =>
    if inferred.same ret then return .function opening.tys ret else fail span (.result ret inferred)

theorem lambda_eq (scope : Scope) (self : Option String) (span : Span) (params : List Name)
    (doc : Option String) (body : Scope → Action Ty) :
    lambda scope self span params doc body = (do
      let opening ← openLambda scope self span params doc
      let last ← body opening.frame
      closeLambda span opening last) := by
  simp only [lambda, openLambda, bind_assoc, pure_bind]
  rfl

/-- The names that a lambda sees in addition to those around it: its parameters and, if it
is being defined, its own. -/
def Local (own : Option String) (params : List Name) (name : String) : Prop :=
  (∃ param ∈ params, param.text = name) ∨ name ∈ own

structure Opened (s : Scope) (own : Option String) (params : List Name) (c c' : Checker)
    (opening : Opening) : Prop where
  inside : Inside s (Local own params) c c' opening.frame
  younger : c.heap.next ≤ opening.frame
  tys : ∀ ty ∈ opening.tys, ty.Declared
  declared : ∀ ty ∈ opening.declared, ty.Declared

/-- The type that a lambda has for itself while its body is checked. -/
theorem declared_provisional {tys : List Ty} {declared : Option Ty} (normalTys : ∀ ty ∈ tys, ty.Declared)
    (normalRet : ∀ ty ∈ declared, ty.Declared) : (Ty.function tys (declared.getD .any)).Declared := by
  apply TypeText.declared_function normalTys
  cases declared with
  | none => exact .any
  | some ret => exact normalRet ret rfl

theorem around_cases (sound : c.heap.Sound) (live : s < c.heap.next) (self : Option String)
    (params : List Name) {ty : Ty} (normal : ty.Declared) :
    ∃ outer c', around s self ty c = .ok outer c' ∧ Inside s (Local self params) c c' outer ∧
      c.heap.next ≤ c'.heap.next := by
  cases self with
  | none => exact ⟨s, c, rfl, .refl sound live, Nat.le_refl _⟩
  | some name =>
    have inside : Inside s (Local (some name) params) c (opened c s none) c.heap.next :=
      Inside.opened (.refl sound live) none (by simp)
    have defined : Ended c.heap.next (Local (some name) params) (opened c s none)
        (define c.heap.next name ty (opened c s none)) := ended_define inside.sound (.inr rfl) normal
    have done := inside.after (Nat.le_refl _) defined
    exact ⟨c.heap.next, _, rfl, done, (done.evolved s fun _ => True).next⟩

theorem openLambda_cases (sound : c.heap.Sound) (live : s < c.heap.next) (self : Option String)
    (span : Span) (params : List Name) (doc : Option String) :
    (∃ failure, openLambda s self span params doc c = .error failure c) ∨
      ∃ opening c', openLambda s self span params doc c = .ok opening c' ∧
        Opened s self params c c' opening := by
  rcases signature_cases span params doc c with ⟨failure, refused⟩ | ⟨tys, declared, read, normalTys, normalRet⟩
  · left
    exact ⟨failure, by simp only [openLambda, bind_apply, refused]⟩
  right
  obtain ⟨outer, c₁, surrounded, inside₁, grown₁⟩ :=
    around_cases sound live self params (declared_provisional normalTys normalRet)
  have inside₂ := inside₁.opened (some []) fun _ held => (Option.some.inj held).symm
  have entered : enter outer (some []) c₁ = .ok c₁.heap.next (opened c₁ outer (some [])) := rfl
  obtain ⟨c₃, bound⟩ := exists_bindAll c₁.heap.next params tys (opened c₁ outer (some []))
  have ended : Ended c₁.heap.next (Local self params) (opened c₁ outer (some []))
      (bindAll c₁.heap.next params tys (opened c₁ outer (some []))) := by
    apply ended_bindAll inside₂.sound params normalTys
    intro param isParam
    exact .inl ⟨param, isParam, rfl⟩
  rw [bound] at ended
  refine ⟨⟨tys, declared, c₁.heap.next⟩, c₃, ?_, inside₂.after grown₁ ended, grown₁, normalTys, normalRet⟩
  simp only [openLambda, bind_apply, read, surrounded, entered, bound]
  rfl

theorem ended_closeLambda (sound : c.heap.Sound) (span : Span) {opening : Opening}
    (normalTys : ∀ ty ∈ opening.tys, ty.Declared) (normalRet : ∀ ty ∈ opening.declared, ty.Declared)
    {last : Ty} (normal : last.Declared) : Ended s new c (closeLambda span opening last c) := by
  apply (ended_takeReturns sound opening.frame).bind
  intro returned c' _ sound' _ normalReturned
  have inferred : (Ty.join (returned ++ [last])).Declared :=
    Ty.normal_join (TypeText.forall_append_singleton normalReturned normal)
  cases declared : opening.declared with
  | none => exact .ok sound' (TypeText.declared_function normalTys inferred)
  | some ret =>
    dsimp only
    split
    · exact .ok sound' (TypeText.declared_function normalTys (normalRet ret declared))
    · exact ended_fail sound' _ _

/-- A lambda defines no name in any frame that was there before. -/
theorem ended_lambda (sound : c.heap.Sound) (live : s < c.heap.next) (self : Option String) (span : Span)
    (params : List Name) (doc : Option String) {body : Scope → Action Ty} {inner : String → Prop}
    (checks : ∀ frame c', c'.heap.Sound → frame < c'.heap.next → Ended frame inner c' (body frame c')) :
    Ended t new c (lambda s self span params doc body c) := by
  rw [lambda_eq, bind_apply]
  rcases openLambda_cases sound live self span params doc with ⟨failure, refused⟩ | ⟨opening, c', opened, spec⟩
  · rw [refused]
    exact ⟨sound, .refl t new c.heap, trivial⟩
  · rw [opened]
    have checked := checks opening.frame c' spec.inside.sound spec.inside.live
    have closed : Ended opening.frame inner c'
        ((body opening.frame >>= closeLambda span opening) c') := by
      apply checked.bind
      intro last c'' _ sound'' _ normal
      exact ended_closeLambda sound'' span spec.tys spec.declared normal
    exact closed.after (spec.inside.evolved t new) (.inr spec.younger)

end

/-- The type of what is defined. A lambda sees the name that it will have. -/
def value (scope : Scope) (name : String) : Node → Action Ty
  | .lambda span params doc body => lambda scope (some name) span params doc fun frame => node frame body
  | other => node scope other

theorem node_define (scope : Scope) (span : Span) (name : Name) (v : Node) :
    node scope (.define span name v) = (do
      tick span
      let ty ← value scope name.text v
      Check.bind scope name ty) := by
  cases v <;> simp only [node, value]

section

variable {s : Scope} {c : Checker}

/-- The binding that an assignment widens, if it was there before the value was checked, is
the one that was found to be no function. -/
theorem ended_assign {name : Name} {new : String → Prop} {value : Action Ty} (live : s < c.heap.next)
    (sound : c.heap.Sound) (checked : Ended s new c (value c)) :
    Ended s new c ((do
      target s name
      let ty ← value
      let _ ← change (·.widen s name.text ty)
      return Ty.unit) c) := by
  apply (ended_target sound name).bind
  intro _ c' allowed _ _ _
  obtain ⟨same, held, found, plain⟩ := target_eq_ok allowed
  rw [same, bind_apply]
  cases run : value c with
  | error failure c₁ =>
    rw [run] at checked
    exact ⟨checked.sound, checked.evolved, trivial⟩
  | ok ty c₁ =>
    rw [run] at checked
    refine ⟨checked.sound.widen s name.text checked.normal, ?_, .unit⟩
    apply checked.evolved.widen checked.sound checked.normal
    intro t frame old binder foundFrame isOld
    have bound : c.heap.bindsIn t name.text = true := by
      simp [Heap.bindsIn, foundFrame, Frame.binds, isOld]
    have before := checked.evolved.binder? sound.ordered checked.sound.ordered live binder bound
    have same := Heap.lookup_of_binder? sound.ordered live before
    rw [foundFrame, Option.bind_some, isOld, found] at same
    cases same
    exact plain

end

mutual

theorem node_ended (n : Node) {s : Scope} {c : Checker} (sound : c.heap.Sound) (live : s < c.heap.next) :
    Ended s (n.binds · = true) c (node s n c) := by
  cases n with
  | unit span =>
    simp only [node]
    exact Ended.ticked sound span (.ok sound .unit)
  | atom span value =>
    simp only [node]
    exact Ended.ticked sound span (ended_atom sound span value)
  | block span forms =>
    simp only [node]
    apply Ended.ticked sound span
    exact ended_enter (sequence_ended forms (sound.child live) (Heap.lt_next_add _ _ _) .unit)
  | call span callee args =>
    simp only [node]
    apply Ended.ticked sound span
    refine (node_ended callee sound live).part (by simp +contextual [Node.binds]) ?_
    intro function c₁ _ sound₁ grown₁ normal
    have live₁ := Nat.lt_of_lt_of_le live grown₁
    refine (nodes_ended args sound₁ live₁).part (by simp +contextual [Node.binds]) ?_
    intro tys c₂ _ sound₂ _ _
    exact ended_call sound₂ span callee tys normal
  | conditional span branches otherwise =>
    simp only [node]
    apply Ended.ticked sound span
    refine (cases_ended branches sound live).part (by simp +contextual [Node.binds]) ?_
    intro bodies c₁ _ sound₁ grown₁ normalBodies
    refine (node_ended otherwise sound₁ (Nat.lt_of_lt_of_le live grown₁)).part (by simp +contextual [Node.binds]) ?_
    intro last c₂ _ sound₂ _ normalLast
    exact .ok sound₂ (Ty.normal_join (TypeText.forall_append_singleton normalBodies normalLast))
  | loop span predicate body =>
    simp only [node]
    apply Ended.ticked sound span
    refine (node_ended predicate sound live).part (by simp +contextual [Node.binds]) ?_
    intro ty c₁ _ sound₁ grown₁ _
    apply (ended_condition sound₁ predicate.span ty).bind
    intro _ c₂ _ sound₂ grown₂ _
    have live₂ := Nat.lt_of_lt_of_le live (Nat.le_trans grown₁ grown₂)
    refine (node_ended body sound₂ live₂).part (by simp +contextual [Node.binds]) ?_
    intro _ c₃ _ sound₃ _ _
    exact .ok sound₃ .unit
  | define span name v =>
    rw [node_define]
    apply Ended.ticked sound span
    have checked : Ended s (v.binds · = true) c (value s name.text v c) := by
      cases v with
      | lambda lambdaSpan params doc body =>
        apply ended_lambda sound live (some name.text) lambdaSpan params doc
        intro frame c' sound' live'
        exact node_ended body sound' live'
      | _ => exact node_ended _ sound live
    refine checked.part (by simp +contextual [Node.binds]) ?_
    intro ty c₁ _ sound₁ _ normal
    exact ended_bind sound₁ (by simp [Node.binds]) normal
  | assign span name value =>
    simp only [node]
    apply Ended.ticked sound span
    apply ended_assign live sound
    exact node_ended value sound live
  | lambda span params doc body =>
    simp only [node]
    apply Ended.ticked sound span
    apply ended_lambda sound live none span params doc
    intro frame c' sound' live'
    exact node_ended body sound' live'
  | quote span inner =>
    simp only [node]
    exact Ended.ticked sound span (.ok sound .any)
  | ret span value =>
    simp only [node]
    apply Ended.ticked sound span
    refine (node_ended value sound live).part (by simp +contextual [Node.binds]) ?_
    intro ty c₁ _ sound₁ _ normal
    apply (ended_recordReturn sound₁ normal).bind
    intro done c₂ _ sound₂ _ _
    cases done with
    | true => exact .ok sound₂ normal
    | false => exact ended_fail sound₂ _ _

theorem sequence_ended (forms : List Node) {s : Scope} {c : Checker} (sound : c.heap.Sound)
    (live : s < c.heap.next) {last : Ty} (normal : last.Declared) :
    Ended s (Node.bindsAny · forms = true) c (sequence s last forms c) := by
  cases forms with
  | nil => exact .ok sound normal
  | cons form forms =>
    refine (node_ended form sound live).part (by simp +contextual [Node.bindsAny]) ?_
    intro ty c₁ _ sound₁ grown₁ normal₁
    exact (sequence_ended forms sound₁ (Nat.lt_of_lt_of_le live grown₁) normal₁).mono
      (by simp +contextual [Node.bindsAny])

theorem nodes_ended (ns : List Node) {s : Scope} {c : Checker} (sound : c.heap.Sound)
    (live : s < c.heap.next) : Ended s (Node.bindsAny · ns = true) c (nodes s ns c) := by
  cases ns with
  | nil => exact .ok sound (List.forall_mem_nil _)
  | cons n ns =>
    refine (node_ended n sound live).part (by simp +contextual [Node.bindsAny]) ?_
    intro ty c₁ _ sound₁ grown₁ normal
    refine (nodes_ended ns sound₁ (Nat.lt_of_lt_of_le live grown₁)).part (by simp +contextual [Node.bindsAny]) ?_
    intro tys c₂ _ sound₂ _ normals
    exact .ok sound₂ (List.forall_mem_cons.2 ⟨normal, normals⟩)

theorem cases_ended (branches : List (Node × Node)) {s : Scope} {c : Checker} (sound : c.heap.Sound)
    (live : s < c.heap.next) : Ended s (Node.bindsCases · branches = true) c (cases s branches c) := by
  match branches with
  | [] => exact .ok sound (List.forall_mem_nil _)
  | (predicate, body) :: rest =>
    refine (node_ended predicate sound live).part (by simp +contextual [Node.bindsCases]) ?_
    intro test c₁ _ sound₁ grown₁ _
    apply (ended_condition sound₁ predicate.span test).bind
    intro _ c₂ _ sound₂ grown₂ _
    have live₂ := Nat.lt_of_lt_of_le live (Nat.le_trans grown₁ grown₂)
    refine (node_ended body sound₂ live₂).part (by simp +contextual [Node.bindsCases]) ?_
    intro ty c₃ _ sound₃ grown₃ normal
    refine (cases_ended rest sound₃ (Nat.lt_of_lt_of_le live₂ grown₃)).part (by simp +contextual [Node.bindsCases]) ?_
    intro tys c₄ _ sound₄ _ normals
    exact .ok sound₄ (List.forall_mem_cons.2 ⟨normal, normals⟩)

end

/-- While its body is checked, the name of a defined lambda is bound in no older frame. -/
theorem defined_lambda_ended {s t : Scope} {new : String → Prop} {c : Checker} (sound : c.heap.Sound)
    (live : s < c.heap.next) (name : String) (span : Span) (params : List Name) (doc : Option String)
    (body : Node) : Ended t new c (value s name (.lambda span params doc body) c) := by
  apply ended_lambda sound live (some name) span params doc
  intro frame c' sound' live'
  exact node_ended body sound' live'

end CheckedLisp.Check
