import CheckedLisp.Proofs.Check.Effect

/-! For each form: what its parts have to give, and from which checker to which, for the form to
have a type. -/
namespace CheckedLisp.Check

open Sequencing

variable {α : Type} {s : Scope} {c c' : Checker} {span : Span} {ty : Ty}

theorem ticked_ok {next : Action α} {a : α} :
    (tick span >>= fun _ => next) c = .ok a c' ↔ c.cancelled = false ∧ next c = .ok a c' := by
  rw [bind_apply, tick]
  cases c.cancelled <;> simp

theorem pure_ok {a b : α} : (pure a : Action α) c = .ok b c' ↔ b = a ∧ c' = c := by
  rw [pure_eq_ok, eq_comm, @eq_comm _ c]

theorem fail_ok {fault : Fault} {a : α} : (fail span fault : Action α) c = .ok a c' ↔ False := by
  constructor
  · intro succeeded
    cases succeeded
  · exact False.elim

theorem condition_ok {done : Unit} : condition span ty c = .ok done c' ↔ ty.isCondition = true ∧ c' = c := by
  simp only [condition]
  split
  · next accepted => simp [pure_ok, accepted]
  · next refused => simp [fail_ok, refused]

/-- What a call of `function` gives for arguments of these types. -/
def Gives (function : Ty) (args : List Ty) (ty : Ty) : Prop :=
  (∃ newest older, function = .callable newest older ∧ callOverloads (newest :: older) args = .ok ty) ∨
    function = .any ∧ ty = .any

theorem call_ok {callee : Node} {args : List Ty} {function : Ty} :
    call span callee args function c = .ok ty c' ↔ Gives function args ty ∧ c' = c := by
  cases function with
  | callable newest older =>
    simp only [call, Gives]
    cases called : callOverloads (newest :: older) args with
    | ok result => simp [pure_ok, called, eq_comm]
    | error fault => simp [fail_ok, called]
  | any => simp [call, Gives, pure_ok]
  | _ => simp [call, Gives, fail_ok]

theorem target_ok {name : Name} {done : Unit} : target s name c = .ok done c' ↔
    (∃ old, c.heap.lookup s name.text = some old ∧ old.isCallable = false) ∧ c' = c := by
  simp only [target, bind_apply, lookup]
  cases c.heap.lookup s name.text with
  | none => simp [fail_ok]
  | some old =>
    cases callable : old.isCallable with
    | true => simp [callable, fail_ok]
    | false => simp [callable, pure_ok]

theorem node_unit_ok : node s (.unit span) c = .ok ty c' ↔ c.cancelled = false ∧ ty = .unit ∧ c' = c := by
  rw [node, ticked_ok, pure_ok]

theorem node_quote_ok {inner : Node} :
    node s (.quote span inner) c = .ok ty c' ↔ c.cancelled = false ∧ ty = .any ∧ c' = c := by
  rw [node, ticked_ok, pure_ok]

/-- The type of an atom, given what names are bound to. -/
def atomType? (lookup : String → Option Ty) : Atom → Option Ty
  | .bool _ => some .bool
  | .int _ => some .int
  | .float _ => some .float
  | .string _ => some .string
  | .symbol name => lookup name

theorem node_atom_ok {value : Atom} : node s (.atom span value) c = .ok ty c' ↔
    c.cancelled = false ∧ atomType? (c.heap.lookup s) value = some ty ∧ c' = c := by
  rw [node, ticked_ok]
  refine and_congr_right fun _ => ?_
  cases value with
  | symbol name =>
    simp only [atom, bind_apply, lookup, atomType?]
    cases c.heap.lookup s name with
    | none => simp [fail_ok]
    | some found => simp [pure_ok, eq_comm]
  | _ => simp [atom, atomType?, pure_ok, eq_comm]

theorem node_block_ok {forms : List Node} : node s (.block span forms) c = .ok ty c' ↔
    c.cancelled = false ∧ sequence c.heap.next .unit forms (opened c s none) = .ok ty c' := by
  rw [node, ticked_ok]
  rfl

theorem node_call_ok {callee : Node} {args : List Node} : node s (.call span callee args) c = .ok ty c' ↔
    c.cancelled = false ∧ ∃ function c₁ tys, node s callee c = .ok function c₁ ∧
      nodes s args c₁ = .ok tys c' ∧ Gives function tys ty := by
  rw [node, ticked_ok]
  simp only [bind_eq_ok, call_ok]
  refine and_congr_right fun _ => ?_
  constructor
  · rintro ⟨function, c₁, checked, tys, _, checkedArgs, given, rfl⟩
    exact ⟨function, c₁, tys, checked, checkedArgs, given⟩
  · rintro ⟨function, c₁, tys, checked, checkedArgs, given⟩
    exact ⟨function, c₁, checked, tys, c', checkedArgs, given, rfl⟩

theorem node_conditional_ok {branches : List (Node × Node)} {otherwise : Node} :
    node s (.conditional span branches otherwise) c = .ok ty c' ↔
      c.cancelled = false ∧ ∃ bodies c₁ last, cases s branches c = .ok bodies c₁ ∧
        node s otherwise c₁ = .ok last c' ∧ ty = .join (bodies ++ [last]) := by
  rw [node, ticked_ok]
  simp only [bind_eq_ok, pure_ok]
  refine and_congr_right fun _ => ?_
  constructor
  · rintro ⟨bodies, c₁, checked, last, _, checkedLast, rfl, rfl⟩
    exact ⟨bodies, c₁, last, checked, checkedLast, rfl⟩
  · rintro ⟨bodies, c₁, last, checked, checkedLast, rfl⟩
    exact ⟨bodies, c₁, checked, last, c', checkedLast, rfl, rfl⟩

theorem node_loop_ok {predicate body : Node} : node s (.loop span predicate body) c = .ok ty c' ↔
    c.cancelled = false ∧ ∃ test c₁ last, node s predicate c = .ok test c₁ ∧ test.isCondition = true ∧
      node s body c₁ = .ok last c' ∧ ty = .unit := by
  rw [node, ticked_ok]
  simp only [bind_eq_ok, pure_ok, condition_ok]
  refine and_congr_right fun _ => ?_
  constructor
  · rintro ⟨test, c₁, checked, _, _, ⟨accepted, rfl⟩, last, _, checkedBody, rfl, rfl⟩
    exact ⟨test, _, last, checked, accepted, checkedBody, rfl⟩
  · rintro ⟨test, c₁, last, checked, accepted, checkedBody, rfl⟩
    exact ⟨test, c₁, checked, (), c₁, ⟨accepted, rfl⟩, last, c', checkedBody, rfl, rfl⟩

theorem bind_ok {name : Name} {kind : Ty} : Check.bind s name kind c = .ok ty c' ↔
    ∃ heap, c.heap.define s name.text kind = (true, heap) ∧ c' = { c with heap } ∧ ty = .unit := by
  rw [bind_eq]
  split
  · next heap done =>
    rw [done]
    constructor
    · intro bound
      cases bound
      exact ⟨heap, rfl, rfl, rfl⟩
    · rintro ⟨_, same, rfl, rfl⟩
      cases same
      rfl
  · next heap refused => simp [refused]

theorem node_define_ok {name : Name} {v : Node} : node s (.define span name v) c = .ok ty c' ↔
    c.cancelled = false ∧ ∃ kind c₁ heap, value s name.text v c = .ok kind c₁ ∧
      c₁.heap.define s name.text kind = (true, heap) ∧ c' = { c₁ with heap } ∧ ty = .unit := by
  rw [node_define, ticked_ok]
  simp only [bind_eq_ok, bind_ok, exists_and_left]

theorem node_assign_ok {name : Name} {v : Node} : node s (.assign span name v) c = .ok ty c' ↔
    c.cancelled = false ∧ ∃ old kind c₁, c.heap.lookup s name.text = some old ∧ old.isCallable = false ∧
      node s v c = .ok kind c₁ ∧ c' = { c₁ with heap := (c₁.heap.widen s name.text kind).2 } ∧ ty = .unit := by
  rw [node, ticked_ok]
  simp only [bind_eq_ok, pure_ok, target_ok]
  refine and_congr_right fun _ => ?_
  constructor
  · rintro ⟨_, _, ⟨⟨old, found, plain⟩, rfl⟩, kind, c₁, checked, _, _, widened, rfl, rfl⟩
    cases widened
    exact ⟨old, kind, c₁, found, plain, checked, rfl, rfl⟩
  · rintro ⟨old, kind, c₁, found, plain, checked, rfl, rfl⟩
    exact ⟨(), c, ⟨⟨old, found, plain⟩, rfl⟩, kind, c₁, checked, _, _, rfl, rfl, rfl⟩

theorem node_lambda_ok {params : List Name} {doc : Option String} {body : Node} :
    node s (.lambda span params doc body) c = .ok ty c' ↔
      c.cancelled = false ∧ lambda s none span params doc (fun frame => node frame body) c = .ok ty c' := by
  rw [node, ticked_ok]

theorem change_ok {f : TypeHeap → Bool × TypeHeap} {done : Bool} :
    change f c = .ok done c' ↔ ∃ heap, f c.heap = (done, heap) ∧ c' = { c with heap } := by
  simp only [change, modifyGet_apply, EStateM.Result.ok.injEq]
  constructor
  · rintro ⟨rfl, rfl⟩
    exact ⟨(f c.heap).2, rfl, rfl⟩
  · rintro ⟨heap, changed, rfl⟩
    simp [changed]

theorem node_ret_ok {v : Node} : node s (.ret span v) c = .ok ty c' ↔
    c.cancelled = false ∧ ∃ c₁ heap, node s v c = .ok ty c₁ ∧ c₁.heap.recordReturn s ty = (true, heap) ∧
      c' = { c₁ with heap } := by
  rw [node, ticked_ok]
  simp only [bind_eq_ok, change_ok]
  refine and_congr_right fun _ => ?_
  constructor
  · rintro ⟨kind, c₁, checked, done, _, ⟨heap, recorded, rfl⟩, rest⟩
    cases done with
    | true =>
      obtain ⟨rfl, rfl⟩ := pure_ok.1 rest
      exact ⟨c₁, heap, checked, recorded, rfl⟩
    | false => cases rest
  · rintro ⟨c₁, heap, checked, recorded, rfl⟩
    exact ⟨ty, c₁, checked, true, { c₁ with heap }, ⟨heap, recorded, rfl⟩, rfl⟩

/-- What a check leaves that has succeeded. -/
theorem Ended.of_ok [Typed α] {new : String → Prop} {r : Ending α} {a : α} (ended : Ended s new c r)
    (done : r = .ok a c') : c'.heap.Sound ∧ c.heap.Evolved s new c'.heap ∧ Typed.Normal a := by
  rw [done] at ended
  exact ⟨ended.sound, ended.evolved, ended.normal⟩

theorem evolved_of_ok {n : Node} (sound : c.heap.Sound) (live : s < c.heap.next) (checked : node s n c = .ok ty c') :
    c'.heap.Sound ∧ c.heap.Evolved s (n.binds · = true) c'.heap ∧ ty.Declared :=
  (node_ended n sound live).of_ok checked

theorem value_evolved_of_ok {name : String} {v : Node} (sound : c.heap.Sound) (live : s < c.heap.next)
    (checked : value s name v c = .ok ty c') :
    c'.heap.Sound ∧ c.heap.Evolved s (v.binds · = true) c'.heap ∧ ty.Declared := by
  cases v with
  | lambda lambdaSpan params doc body =>
    have ended : Ended s ((Node.lambda lambdaSpan params doc body).binds · = true) c
        (value s name (.lambda lambdaSpan params doc body) c) :=
      defined_lambda_ended sound live name lambdaSpan params doc body
    exact ended.of_ok checked
  | _ => exact evolved_of_ok sound live checked

theorem sequence_cons_ok {last : Ty} {form : Node} {forms : List Node} :
    sequence s last (form :: forms) c = .ok ty c' ↔
      ∃ kind c₁, node s form c = .ok kind c₁ ∧ sequence s kind forms c₁ = .ok ty c' := by
  simp only [sequence, bind_eq_ok]

theorem nodes_cons_ok {n : Node} {ns : List Node} {tys : List Ty} : nodes s (n :: ns) c = .ok tys c' ↔
    ∃ kind c₁ kinds, node s n c = .ok kind c₁ ∧ nodes s ns c₁ = .ok kinds c' ∧ tys = kind :: kinds := by
  simp only [nodes, bind_eq_ok, pure_ok]
  constructor
  · rintro ⟨kind, c₁, checked, kinds, _, checkedRest, rfl, rfl⟩
    exact ⟨kind, c₁, kinds, checked, checkedRest, rfl⟩
  · rintro ⟨kind, c₁, kinds, checked, checkedRest, rfl⟩
    exact ⟨kind, c₁, checked, kinds, c', checkedRest, rfl, rfl⟩

theorem cases_cons_ok {predicate body : Node} {rest : List (Node × Node)} {tys : List Ty} :
    cases s ((predicate, body) :: rest) c = .ok tys c' ↔
      ∃ test c₁ kind c₂ kinds, node s predicate c = .ok test c₁ ∧ test.isCondition = true ∧
        node s body c₁ = .ok kind c₂ ∧ cases s rest c₂ = .ok kinds c' ∧ tys = kind :: kinds := by
  simp only [cases, bind_eq_ok, pure_ok, condition_ok]
  constructor
  · rintro ⟨test, c₁, checked, _, _, ⟨accepted, rfl⟩, kind, c₂, checkedBody, kinds, _, checkedRest, rfl, rfl⟩
    exact ⟨test, _, kind, c₂, kinds, checked, accepted, checkedBody, checkedRest, rfl⟩
  · rintro ⟨test, c₁, kind, c₂, kinds, checked, accepted, checkedBody, checkedRest, rfl⟩
    exact ⟨test, c₁, checked, (), c₁, ⟨accepted, rfl⟩, kind, c₂, checkedBody, kinds, c', checkedRest, rfl, rfl⟩

/-- The type of a lambda, if it may have one, given the types that it returns and the type
of its body. -/
def Opening.result? (opening : Opening) (returned : List Ty) (last : Ty) : Option Ty :=
  match opening.declared with
  | none => some (.function opening.tys (.join (returned ++ [last])))
  | some ret =>
    if (Ty.join (returned ++ [last])).same ret then some (.function opening.tys ret) else none

theorem closeLambda_ok {opening : Opening} {last : Ty} : closeLambda span opening last c = .ok ty c' ↔
    opening.result? (c.heap.returns opening.frame) last = some ty ∧
      c' = { c with heap := c.heap.clearReturns opening.frame } := by
  simp only [closeLambda, bind_apply, takeReturns, modifyGet_apply, Opening.result?]
  cases opening.declared with
  | none => simp [pure_ok, eq_comm]
  | some ret =>
    dsimp only
    split
    · simp [pure_ok, eq_comm]
    · simp [fail_ok]

theorem lambda_ok {self : Option String} {params : List Name} {doc : Option String} {body : Scope → Action Ty} :
    lambda s self span params doc body c = .ok ty c' ↔
      ∃ opening c₁ last c₂, openLambda s self span params doc c = .ok opening c₁ ∧
        body opening.frame c₁ = .ok last c₂ ∧
        opening.result? (c₂.heap.returns opening.frame) last = some ty ∧
        c' = { c₂ with heap := c₂.heap.clearReturns opening.frame } := by
  simp only [lambda_eq, bind_eq_ok, closeLambda_ok, exists_and_left]

/-- The doc string, if there is one, declares no function. -/
def DeclaresNone (doc : Option String) : Prop :=
  ∀ text ∈ doc, ∃ found, TypeText.ofDoc text = .ok found ∧ ∀ ty ∈ found, ty.isCallable = false

theorem signature_ok {params : List Name} {doc : Option String} {found : List Ty × Option Ty} :
    signature span params doc c = .ok found c' ↔ c' = c ∧
      ((DeclaresNone doc ∧ found = (params.map fun _ => .any, none)) ∨
        ∃ text newest older, text ∈ doc ∧ TypeText.ofDoc text = .ok (some (.callable newest older)) ∧
          newest.params.length = params.length ∧ (∀ ty ∈ newest.params, ty.isVariadic = false) ∧
          found = (newest.params, some newest.ret)) := by
  constructor
  · intro read
    simp only [signature] at read
    cases doc with
    | none =>
      obtain ⟨rfl, rfl⟩ := pure_ok.1 read
      exact ⟨rfl, .inl ⟨by simp [DeclaresNone], rfl⟩⟩
    | some text =>
      rw [Option.map_some] at read
      cases result : TypeText.ofDoc text with
      | error fault =>
        rw [result] at read
        cases read
      | ok declared =>
        rw [result] at read
        cases declared with
        | none =>
          obtain ⟨rfl, rfl⟩ := pure_ok.1 read
          exact ⟨rfl, .inl ⟨by simp [DeclaresNone, result], rfl⟩⟩
        | some ty =>
          cases ty with
          | callable newest older =>
            dsimp only at read
            split at read
            · cases read
            · next count =>
              cases variadic : newest.params.find? Ty.isVariadic with
              | some param =>
                rw [variadic] at read
                cases read
              | none =>
                rw [variadic] at read
                obtain ⟨rfl, rfl⟩ := pure_ok.1 read
                have plain : ∀ ty ∈ newest.params, ty.isVariadic = false := by simpa using variadic
                exact ⟨rfl, .inr ⟨text, newest, older, rfl, result, Decidable.not_not.1 count, plain, rfl⟩⟩
          | _ =>
            obtain ⟨rfl, rfl⟩ := pure_ok.1 read
            exact ⟨rfl, .inl ⟨by simp [DeclaresNone, result, Ty.isCallable], rfl⟩⟩
  · rintro ⟨rfl, ⟨none, rfl⟩ | ⟨text, newest, older, rfl, result, count, plain, rfl⟩⟩
    · cases doc with
      | none => rfl
      | some text =>
        obtain ⟨found, result, data⟩ := none text rfl
        simp only [signature, Option.map_some, result]
        cases found with
        | none => rfl
        | some ty =>
          cases ty with
          | callable => cases data _ rfl
          | _ => rfl
    · have variadic : newest.params.find? Ty.isVariadic = none := by simpa using plain
      simp only [signature, Option.map_some, result, count, ne_eq, not_true_eq_false, if_false, variadic]
      rfl

theorem openLambda_ok {self : Option String} {params : List Name} {doc : Option String} {opening : Opening} :
    openLambda s self span params doc c = .ok opening c' ↔
      ∃ tys declared outer c₁, signature span params doc c = .ok (tys, declared) c ∧
        around s self (.function tys (declared.getD .any)) c = .ok outer c₁ ∧
        bindAll c₁.heap.next params tys (opened c₁ outer (some [])) = .ok () c' ∧
        opening = ⟨tys, declared, c₁.heap.next⟩ := by
  simp only [openLambda, bind_eq_ok, pure_ok]
  constructor
  · rintro ⟨⟨tys, declared⟩, _, read, outer, c₁, surrounded, frame, _, entered, _, _, bound, rfl, rfl⟩
    obtain ⟨rfl, -⟩ := signature_ok.1 read
    cases entered
    exact ⟨tys, declared, outer, c₁, read, surrounded, bound, rfl⟩
  · rintro ⟨tys, declared, outer, c₁, read, surrounded, bound, rfl⟩
    exact ⟨(tys, declared), c, read, outer, c₁, surrounded, c₁.heap.next, opened c₁ outer (some []), rfl, (), c',
      bound, rfl, rfl⟩

theorem bindAll_cancelled {frame : Scope} {params : List Name} {tys : List Ty}
    (bound : bindAll frame params tys c = .ok () c') : c'.cancelled = c.cancelled := by
  induction params generalizing tys c with
  | nil =>
    cases bound
    rfl
  | cons param params ih =>
    cases tys with
    | nil =>
      cases bound
      rfl
    | cons ty tys =>
      obtain ⟨_, c₁, defined, rest⟩ := bind_eq_ok.1 bound
      cases defined
      have kept := ih rest
      exact kept

theorem openLambda_cancelled {self : Option String} {params : List Name} {doc : Option String} {opening : Opening}
    (opens : openLambda s self span params doc c = .ok opening c') : c'.cancelled = c.cancelled := by
  obtain ⟨tys, declared, outer, c₁, -, surrounded, bound, -⟩ := openLambda_ok.1 opens
  have kept : c₁.cancelled = c.cancelled := by
    cases self <;> cases surrounded <;> rfl
  exact (bindAll_cancelled bound).trans kept

theorem lambda_cancelled {self : Option String} {params : List Name} {doc : Option String} {body : Scope → Action Ty}
    (checked : lambda s self span params doc body c = .ok ty c')
    (inside : ∀ frame c last c', body frame c = .ok last c' → c'.cancelled = c.cancelled) :
    c'.cancelled = c.cancelled := by
  obtain ⟨opening, c₁, last, c₂, opens, checkedBody, -, rfl⟩ := lambda_ok.1 checked
  exact (inside opening.frame c₁ last c₂ checkedBody).trans (openLambda_cancelled opens)

mutual

theorem node_cancelled (n : Node) {s : Scope} {c c' : Checker} {ty : Ty} (checked : node s n c = .ok ty c') :
    c'.cancelled = c.cancelled := by
  cases n with
  | unit span =>
    obtain ⟨-, -, rfl⟩ := node_unit_ok.1 checked
    rfl
  | atom span value =>
    obtain ⟨-, -, rfl⟩ := node_atom_ok.1 checked
    rfl
  | block span forms =>
    have kept := sequence_cancelled forms (node_block_ok.1 checked).2
    exact kept
  | call span callee args =>
    obtain ⟨-, _, _, _, checkedCallee, checkedArgs, -⟩ := node_call_ok.1 checked
    exact (nodes_cancelled args checkedArgs).trans (node_cancelled callee checkedCallee)
  | conditional span branches otherwise =>
    obtain ⟨-, _, _, _, checkedCases, checkedLast, -⟩ := node_conditional_ok.1 checked
    exact (node_cancelled otherwise checkedLast).trans (cases_cancelled branches checkedCases)
  | loop span predicate body =>
    obtain ⟨-, _, _, _, checkedTest, -, checkedBody, -⟩ := node_loop_ok.1 checked
    exact (node_cancelled body checkedBody).trans (node_cancelled predicate checkedTest)
  | define span name v =>
    obtain ⟨-, _, c₁, _, checkedValue, -, rfl, -⟩ := node_define_ok.1 checked
    change c₁.cancelled = c.cancelled
    cases v with
    | lambda lambdaSpan params doc body =>
      exact lambda_cancelled checkedValue fun _ _ _ _ checkedBody => node_cancelled body checkedBody
    | _ => exact node_cancelled _ checkedValue
  | assign span name v =>
    obtain ⟨-, _, _, c₁, -, -, checkedValue, rfl, -⟩ := node_assign_ok.1 checked
    change c₁.cancelled = c.cancelled
    exact node_cancelled v checkedValue
  | lambda span params doc body =>
    exact lambda_cancelled (node_lambda_ok.1 checked).2 fun _ _ _ _ checkedBody => node_cancelled body checkedBody
  | quote span inner =>
    obtain ⟨-, -, rfl⟩ := node_quote_ok.1 checked
    rfl
  | ret span v =>
    obtain ⟨-, c₁, _, checkedValue, -, rfl⟩ := node_ret_ok.1 checked
    change c₁.cancelled = c.cancelled
    exact node_cancelled v checkedValue

theorem sequence_cancelled (forms : List Node) {s : Scope} {c c' : Checker} {last ty : Ty}
    (checked : sequence s last forms c = .ok ty c') : c'.cancelled = c.cancelled := by
  cases forms with
  | nil =>
    obtain ⟨-, rfl⟩ := pure_eq_ok.1 checked
    rfl
  | cons form forms =>
    obtain ⟨_, _, checkedForm, checkedForms⟩ := sequence_cons_ok.1 checked
    exact (sequence_cancelled forms checkedForms).trans (node_cancelled form checkedForm)

theorem nodes_cancelled (ns : List Node) {s : Scope} {c c' : Checker} {tys : List Ty}
    (checked : nodes s ns c = .ok tys c') : c'.cancelled = c.cancelled := by
  cases ns with
  | nil =>
    obtain ⟨-, rfl⟩ := pure_eq_ok.1 checked
    rfl
  | cons n ns =>
    obtain ⟨_, _, _, checkedNode, checkedNodes, -⟩ := nodes_cons_ok.1 checked
    exact (nodes_cancelled ns checkedNodes).trans (node_cancelled n checkedNode)

theorem cases_cancelled (branches : List (Node × Node)) {s : Scope} {c c' : Checker} {tys : List Ty}
    (checked : cases s branches c = .ok tys c') : c'.cancelled = c.cancelled := by
  match branches with
  | [] =>
    obtain ⟨-, rfl⟩ := pure_eq_ok.1 checked
    rfl
  | (predicate, body) :: rest =>
    obtain ⟨_, _, _, _, _, checkedTest, -, checkedBody, checkedRest, -⟩ := cases_cons_ok.1 checked
    have first := (node_cancelled body checkedBody).trans (node_cancelled predicate checkedTest)
    exact (cases_cancelled rest checkedRest).trans first

end

end CheckedLisp.Check
