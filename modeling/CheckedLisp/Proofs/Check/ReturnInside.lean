import CheckedLisp.Proofs.Check.Preservation
import CheckedLisp.Proofs.Node.Enclosure

/-! The checker looks for a function frame when it meets a `return!`. In a proper tree there is
always one: the body of a lambda is checked in the frame of a function, and frames stay inside the
functions that they were opened in. So no program fails its check for a `return!` outside of a
function. -/
namespace CheckedLisp

namespace Heap

variable {α ρ : Type} {h : Heap α ρ} {s : Scope}

theorem inFunction_iff : h.inFunction s = true ↔
    ∃ t ∈ h.chain s, ∃ frame, h.frame? t = some frame ∧ frame.function.isSome = true := by
  simp only [inFunction, function?, List.find?_isSome, Option.any_eq_true]

/-- The frame of a function lies in that function. -/
theorem inFunction_of_frame? (ordered : h.Ordered) {frame : Frame α ρ} (found : h.frame? s = some frame)
    (isFunction : frame.function.isSome = true) : h.inFunction s = true := by
  have onChain := List.mem_of_head? (ordered.grounded (lt_next_of_frame? found)).head
  exact inFunction_iff.2 ⟨s, onChain, frame, found, isFunction⟩

end Heap

namespace TypeHeap

variable {h h' : TypeHeap} {s t : Scope} {new : String → Prop}

theorem Evolved.inFunction (evolved : Evolved t new h h') (ordered : h.Ordered) (ordered' : h'.Ordered)
    (live : s < h.next) (inside : h.inFunction s = true) : h'.inFunction s = true := by
  obtain ⟨u, onChain, frame, found, isFunction⟩ := Heap.inFunction_iff.1 inside
  obtain ⟨frame', found', evolvedFrame⟩ := evolved.kept u frame found
  rw [← evolved.keeps.chain ordered ordered' live] at onChain
  exact Heap.inFunction_iff.2 ⟨u, onChain, frame', found', evolvedFrame.function.trans isFunction⟩

/-- A type that is returned is recorded wherever there is a function. -/
theorem recordReturn_fst (h : TypeHeap) (s : Scope) (ty : Ty) : (h.recordReturn s ty).1 = h.inFunction s := by
  unfold TypeHeap.recordReturn Heap.inFunction
  cases h.function? s <;> rfl

end TypeHeap

namespace Check

open Sequencing

variable {α β : Type} {s : Scope} {c c' : Checker}

/-- The check did not fail for a `return!` outside of a function. -/
def InPlace (r : Ending α) : Prop :=
  ∀ failure c', r = .error failure c' → failure.fault ≠ .returnOutside

theorem inPlace_ok (a : α) (c : Checker) : InPlace (.ok a c) := by
  intro failure c' failed
  cases failed

theorem inPlace_fail (span : Span) {fault : Fault} (other : fault ≠ .returnOutside) :
    InPlace ((fail span fault : Action α) c) := by
  intro failure c' failed
  cases failed
  exact other

theorem InPlace.bind {x : Action α} {next : α → Action β} (first : InPlace (x c))
    (second : ∀ a c', x c = .ok a c' → InPlace (next a c')) : InPlace ((x >>= next) c) := by
  intro failure c'' failed
  rw [bind_apply] at failed
  cases run : x c with
  | ok a c' =>
    rw [run] at failed
    exact second a c' run failure c'' failed
  | error failure' c' =>
    rw [run] at failed
    cases failed
    exact first failure c'' run

/-- Most checks go on from where they were when their node was paid for. -/
theorem InPlace.ticked {next : Action α} (span : Span) (rest : InPlace (next c)) :
    InPlace ((tick span >>= fun _ => next) c) := by
  have ticks : InPlace (tick span c) := by
    unfold tick
    split
    · intro failure c' failed
      cases failed
      simp
    · exact inPlace_ok _ _
  apply ticks.bind
  intro _ c' ticked
  cases tick_eq_ok ticked
  exact rest

theorem inPlace_atom (span : Span) (value : Atom) : InPlace (atom s span value c) := by
  cases value with
  | symbol name =>
    have looked : InPlace (lookup s name c) := inPlace_ok _ _
    apply looked.bind
    intro found c' _
    cases found with
    | some ty => exact inPlace_ok _ _
    | none => exact inPlace_fail span (by simp)
  | _ => exact inPlace_ok _ _

theorem inPlace_condition (span : Span) (ty : Ty) : InPlace (condition span ty c) := by
  unfold condition
  split
  · exact inPlace_ok _ _
  · exact inPlace_fail span (by simp)

theorem inPlace_call (span : Span) (callee : Node) (args : List Ty) (function : Ty) :
    InPlace (call span callee args function c) := by
  cases function with
  | callable newest older =>
    simp only [call]
    cases callOverloads (newest :: older) args with
    | ok ty => exact inPlace_ok _ _
    | error fault => exact inPlace_fail span (by simp)
  | any => exact inPlace_ok _ _
  | _ => exact inPlace_fail span (by simp)

theorem inPlace_bind (name : Name) (ty : Ty) : InPlace (Check.bind s name ty c) := by
  have defined : InPlace (define s name.text ty c) := inPlace_ok _ _
  apply defined.bind
  intro done c' _
  cases done with
  | true => exact inPlace_ok _ _
  | false => exact inPlace_fail name.span (by simp)

theorem inPlace_target (name : Name) : InPlace (target s name c) := by
  have looked : InPlace (lookup s name.text c) := inPlace_ok _ _
  apply looked.bind
  intro found c' _
  cases found with
  | none => exact inPlace_fail name.span (by simp)
  | some ty =>
    dsimp only
    split
    · exact inPlace_fail name.span (by simp)
    · exact inPlace_ok _ _

theorem inPlace_signature (span : Span) (params : List Name) (doc : Option String) :
    InPlace (signature span params doc c) := by
  simp only [signature]
  rcases doc.map TypeText.ofDoc with _ | fault | _ | ty
  · exact inPlace_ok _ _
  · exact inPlace_fail span (by simp)
  · exact inPlace_ok _ _
  cases ty with
  | callable declared older =>
    dsimp only
    split
    · exact inPlace_fail span (by simp)
    · cases declared.params.find? Ty.isVariadic with
      | some param => exact inPlace_fail span (by simp)
      | none => exact inPlace_ok _ _
  | _ => exact inPlace_ok _ _

theorem inPlace_openLambda (sound : c.heap.Sound) (live : s < c.heap.next) (self : Option String)
    (span : Span) (params : List Name) (doc : Option String) :
    InPlace (openLambda s self span params doc c) := by
  apply (inPlace_signature span params doc).bind
  intro signature c₁ read
  rcases signature_cases span params doc c with ⟨failure, refused⟩ | ⟨tys, declared, found, normalTys, normalRet⟩
  · cases refused.symm.trans read
  cases found.symm.trans read
  obtain ⟨outer, c₂, surrounded, -, -⟩ :=
    around_cases sound live self params (declared_provisional normalTys normalRet)
  have around : InPlace (around s self (.function tys (declared.getD .any)) c) :=
    surrounded ▸ inPlace_ok outer c₂
  apply around.bind
  intro outer c₂ _
  have entered : InPlace (enter outer (some []) c₂) := inPlace_ok _ _
  apply entered.bind
  intro frame c₃ _
  obtain ⟨c₄, bound⟩ := exists_bindAll frame params tys c₃
  have binds : InPlace (bindAll frame params tys c₃) := bound ▸ inPlace_ok () c₄
  apply binds.bind
  intro _ c₄ _
  exact inPlace_ok _ _

theorem inPlace_closeLambda (span : Span) (opening : Opening) (last : Ty) :
    InPlace (closeLambda span opening last c) := by
  have taken : InPlace (takeReturns opening.frame c) := inPlace_ok _ _
  apply taken.bind
  intro returned c' _
  cases opening.declared with
  | none => exact inPlace_ok _ _
  | some ret =>
    dsimp only
    split
    · exact inPlace_ok _ _
    · exact inPlace_fail span (by simp)

/-- The body of a lambda is checked in the frame of a function. -/
theorem inFunction_openLambda (sound : c.heap.Sound) (live : s < c.heap.next) {self : Option String}
    {span : Span} {params : List Name} {doc : Option String} {opening : Opening}
    (done : openLambda s self span params doc c = .ok opening c') :
    c'.heap.inFunction opening.frame = true := by
  simp only [openLambda, bind_eq_ok] at done
  obtain ⟨⟨tys, declared⟩, c₁, read, outer, c₂, surrounded, frame, c₃, entered, _, c₄, bound, last⟩ := done
  obtain ⟨rfl, rfl⟩ := pure_eq_ok.1 last
  rcases signature_cases span params doc c with ⟨failure, refused⟩ | ⟨_, _, found, normalTys, normalRet⟩
  · cases refused.symm.trans read
  cases found.symm.trans read
  obtain ⟨_, _, surrounded', inside, _⟩ :=
    around_cases sound live self params (declared_provisional normalTys normalRet)
  cases surrounded'.symm.trans surrounded
  cases entered
  have sound₃ := inside.sound.functionChild inside.live
  have here : (c₂.heap.add (some outer) (some [])).inFunction c₂.heap.next = true :=
    Heap.inFunction_of_frame? sound₃.ordered (Heap.frame?_add_next _ _ _) rfl
  have ended : Ended c₂.heap.next (fun _ => True) (opened c₂ outer (some []))
      (bindAll c₂.heap.next params tys (opened c₂ outer (some []))) :=
    ended_bindAll sound₃ params normalTys fun _ _ => trivial
  rw [show bindAll c₂.heap.next params tys (opened c₂ outer (some [])) = .ok () c₄ from bound] at ended
  exact ended.evolved.inFunction sound₃.ordered ended.sound.ordered (Heap.lt_next_add _ _ _) here

/-- A node that stands in a lambda, or not, may be checked in `s`. -/
structure Stands (inLambda : Bool) (s : Scope) (c : Checker) : Prop where
  sound : c.heap.Sound
  live : s < c.heap.next
  inside : inLambda = true → c.heap.inFunction s = true

variable {inLambda : Bool}

/-- What is checked in `s` leaves it where it is. -/
theorem Stands.after [Typed α] {x : Action α} {a : α} {new : String → Prop} (stands : Stands inLambda s c)
    (ended : Ended s new c (x c)) (done : x c = .ok a c') : Stands inLambda s c' := by
  rw [done] at ended
  refine ⟨ended.sound, Nat.lt_of_lt_of_le stands.live ended.evolved.next, ?_⟩
  intro isInside
  exact ended.evolved.inFunction stands.sound.ordered ended.sound.ordered stands.live (stands.inside isInside)

theorem inPlace_lambda (stands : Stands inLambda s c) (self : Option String) (span : Span)
    (params : List Name) (doc : Option String) {body : Scope → Action Ty}
    (checks : ∀ frame c', Stands true frame c' → InPlace (body frame c')) :
    InPlace (lambda s self span params doc body c) := by
  rw [lambda_eq]
  apply (inPlace_openLambda stands.sound stands.live self span params doc).bind
  intro opening c₁ done
  rcases openLambda_cases stands.sound stands.live self span params doc with
    ⟨failure, refused⟩ | ⟨_, _, done', spec⟩
  · cases refused.symm.trans done
  cases done'.symm.trans done
  have inside := inFunction_openLambda stands.sound stands.live done
  apply (checks opening.frame c₁ ⟨spec.inside.sound, spec.inside.live, fun _ => inside⟩).bind
  intro last c₂ _
  exact inPlace_closeLambda span opening last

mutual

/-- Checking a proper node finds a function wherever it meets a `return!`. -/
theorem node_inPlace (n : Node) {s : Scope} {c : Checker} {inLambda : Bool} (proper : n.Proper inLambda)
    (stands : Stands inLambda s c) : InPlace (node s n c) := by
  cases n with
  | unit span =>
    simp only [node]
    exact .ticked span (inPlace_ok _ _)
  | atom span value =>
    simp only [node]
    exact .ticked span (inPlace_atom span value)
  | block span forms =>
    simp only [node]
    apply InPlace.ticked span
    have entered : InPlace (enter s none c) := inPlace_ok _ _
    apply entered.bind
    intro inner c' opened
    cases opened
    have inside : inLambda = true → (c.heap.add (some s) none).inFunction c.heap.next = true := by
      intro isInside
      rw [Heap.inFunction_add_next stands.sound.ordered stands.live]
      exact stands.inside isInside
    have stands' : Stands inLambda c.heap.next (opened c s none) :=
      ⟨stands.sound.child stands.live, Heap.lt_next_add _ _ _, inside⟩
    exact sequence_inPlace forms proper.each stands' .unit
  | call span callee args =>
    simp only [node]
    apply InPlace.ticked span
    obtain ⟨properCallee, properArgs⟩ := List.forall_mem_cons.1 proper.each
    apply (node_inPlace callee properCallee stands).bind
    intro function c₁ checked
    have stands₁ := stands.after (node_ended callee stands.sound stands.live) checked
    apply (nodes_inPlace args properArgs stands₁).bind
    intro tys c₂ _
    exact inPlace_call span callee tys function
  | conditional span branches otherwise =>
    simp only [node]
    apply InPlace.ticked span
    obtain ⟨properCases, properLast⟩ := List.forall_mem_append.1 proper.each
    apply (cases_inPlace branches properCases stands).bind
    intro bodies c₁ checked
    have stands₁ := stands.after (cases_ended branches stands.sound stands.live) checked
    apply (node_inPlace otherwise (List.forall_mem_singleton.1 properLast) stands₁).bind
    intro last c₂ _
    exact inPlace_ok _ _
  | loop span predicate body =>
    simp only [node]
    apply InPlace.ticked span
    obtain ⟨properTest, properBody⟩ := List.forall_mem_cons.1 proper.each
    apply (node_inPlace predicate properTest stands).bind
    intro ty c₁ checked
    have stands₁ := stands.after (node_ended predicate stands.sound stands.live) checked
    apply (inPlace_condition predicate.span ty).bind
    intro _ c₂ holds
    obtain ⟨rfl, _⟩ := condition_eq_ok holds
    apply (node_inPlace body (List.forall_mem_singleton.1 properBody) stands₁).bind
    intro _ c₃ _
    exact inPlace_ok _ _
  | define span name v =>
    rw [node_define]
    apply InPlace.ticked span
    have properValue := List.forall_mem_singleton.1 proper.each
    have checks : InPlace (value s name.text v c) := by
      cases v with
      | lambda lambdaSpan params doc body =>
        apply inPlace_lambda stands (some name.text) lambdaSpan params doc
        intro frame c' stands'
        exact node_inPlace body (List.forall_mem_singleton.1 properValue.each) stands'
      | _ => exact node_inPlace _ properValue stands
    apply checks.bind
    intro ty c₁ _
    exact inPlace_bind name ty
  | assign span name value =>
    simp only [node]
    apply InPlace.ticked span
    apply (inPlace_target name).bind
    intro _ c₁ allowed
    obtain ⟨rfl, _⟩ := target_eq_ok allowed
    apply (node_inPlace value (List.forall_mem_singleton.1 proper.each) stands).bind
    intro ty c₂ _
    exact inPlace_ok _ _
  | lambda span params doc body =>
    simp only [node]
    apply InPlace.ticked span
    apply inPlace_lambda stands none span params doc
    intro frame c' stands'
    exact node_inPlace body (List.forall_mem_singleton.1 proper.each) stands'
  | quote span inner =>
    simp only [node]
    exact .ticked span (inPlace_ok _ _)
  | ret span value =>
    simp only [node]
    apply InPlace.ticked span
    apply (node_inPlace value (List.forall_mem_singleton.1 proper.each) stands).bind
    intro ty c₁ checked
    have stands₁ := stands.after (node_ended value stands.sound stands.live) checked
    have recorded : InPlace (change (·.recordReturn s ty) c₁) := inPlace_ok _ _
    apply recorded.bind
    intro done c₂ changed
    have isDone : done = (c₁.heap.recordReturn s ty).1 := by
      cases changed
      rfl
    rw [isDone, TypeHeap.recordReturn_fst, stands₁.inside proper.own]
    exact inPlace_ok _ _

theorem sequence_inPlace (forms : List Node) {s : Scope} {c : Checker} {inLambda : Bool}
    (proper : ∀ form ∈ forms, form.Proper inLambda) (stands : Stands inLambda s c) (last : Ty) :
    InPlace (sequence s last forms c) := by
  cases forms with
  | nil => exact inPlace_ok _ _
  | cons form forms =>
    obtain ⟨properForm, properForms⟩ := List.forall_mem_cons.1 proper
    apply (node_inPlace form properForm stands).bind
    intro ty c₁ checked
    exact sequence_inPlace forms properForms
      (stands.after (node_ended form stands.sound stands.live) checked) ty

theorem nodes_inPlace (ns : List Node) {s : Scope} {c : Checker} {inLambda : Bool}
    (proper : ∀ n ∈ ns, n.Proper inLambda) (stands : Stands inLambda s c) : InPlace (nodes s ns c) := by
  cases ns with
  | nil => exact inPlace_ok _ _
  | cons n ns =>
    obtain ⟨properFirst, properRest⟩ := List.forall_mem_cons.1 proper
    apply (node_inPlace n properFirst stands).bind
    intro ty c₁ checked
    apply (nodes_inPlace ns properRest (stands.after (node_ended n stands.sound stands.live) checked)).bind
    intro tys c₂ _
    exact inPlace_ok _ _

theorem cases_inPlace (branches : List (Node × Node)) {s : Scope} {c : Checker} {inLambda : Bool}
    (proper : ∀ n ∈ Node.caseNodes branches, n.Proper inLambda) (stands : Stands inLambda s c) :
    InPlace (cases s branches c) := by
  match branches with
  | [] => exact inPlace_ok _ _
  | (predicate, body) :: rest =>
    obtain ⟨properTest, proper⟩ := List.forall_mem_cons.1 proper
    obtain ⟨properBody, properRest⟩ := List.forall_mem_cons.1 proper
    apply (node_inPlace predicate properTest stands).bind
    intro test c₁ checked
    have stands₁ := stands.after (node_ended predicate stands.sound stands.live) checked
    apply (inPlace_condition predicate.span test).bind
    intro _ c₂ holds
    obtain ⟨rfl, _⟩ := condition_eq_ok holds
    apply (node_inPlace body properBody stands₁).bind
    intro ty c₃ checked'
    have stands₃ := stands₁.after (node_ended body stands₁.sound stands₁.live) checked'
    apply (cases_inPlace rest properRest stands₃).bind
    intro tys c₄ _
    exact inPlace_ok _ _

end

theorem code_ne_returnOutside {fault : Fault} (other : fault ≠ .returnOutside) :
    fault.code ≠ .returnOutside := by
  cases fault with
  | returnOutside => exact absurd rfl other
  | call callee fault =>
    cases fault with
    | mismatch reason => cases reason <;> intro same <;> cases same
    | _ => intro same; cases same
  | doc fault => cases fault <;> intro same <;> cases same
  | _ => intro same; cases same

/-- Every tree that is read is proper, whatever the tokens are and whichever other forms fail:
a `return!` stands in the body of a lambda, parameters differ and conditionals have cases. So
the check of a program never finds a `return!` outside of a function. -/
theorem read_proper_and_checked_inPlace :
    (∀ (src : Source) (tokens : List Token), ∀ top ∈ (src.nodesOfTokens tokens).1,
      (∀ span value, top.Descends (.ret span value) → top.Encloses (.ret span value)) ∧
      (∀ span params doc body, top.Descends (.lambda span params doc body) → (params.map (·.text)).Nodup) ∧
      ∀ span cases otherwise, top.Descends (.conditional span cases otherwise) → cases ≠ []) ∧
    ∀ (src : Source) (forms : List Node) (errors : Diagnostics), src.parse = .ok forms →
      src.check = .error errors → ∀ report ∈ errors.kept, report.code ≠ .returnOutside := by
  constructor
  · intro src tokens top read
    have proper := src.proper_of_tokens tokens top read
    refine ⟨?_, proper.distinct, ?_⟩
    · intro span value below
      obtain ⟨inner, properRet, enclosed⟩ := proper.descends below
      rcases enclosed properRet.own with outside | inside
      · cases outside
      · exact inside
    · intro span cases otherwise below
      obtain ⟨inner, properCases, _⟩ := proper.descends below
      exact properCases.own
  · intro src forms errors parsed failed report kept
    have stands : Stands false TypeHeap.globalScope .start :=
      ⟨TypeHeap.sound_start, by decide, fun never => by cases never⟩
    have inPlace := nodes_inPlace forms (Source.proper_of_parse parsed) stands
    rw [Source.check, parsed] at failed
    cases run : nodes TypeHeap.globalScope forms .start with
    | ok tys c =>
      simp only [Bind.bind, Except.bind, run] at failed
      cases failed
    | error failure c =>
      simp only [Bind.bind, Except.bind, run] at failed
      cases failed
      rw [List.mem_singleton.1 kept]
      exact code_ne_returnOutside (inPlace failure c run)

/-- Two forms that fail, and a function behind them that does not. -/
def broken : Source := ⟨"broken", "(lambda (x x) 1) (return! 2) (lambda (y) (return! y))"⟩

/-- A function that returns a name which nothing binds. -/
def unbound : Source := ⟨"unbound", "(lambda (x) (return! y))"⟩

theorem read_proper_and_checked_inPlace_broken :
    (∃ top ∈ (broken.nodesOfTokens broken.tokens.1).1, ∃ span value,
      top.Descends (.ret span value) ∧ top.Encloses (.ret span value)) ∧
    ∃ errors, unbound.check = .error errors ∧ errors.kept.map (·.code) = [.undefinedName] ∧
      ∀ report ∈ errors.kept, report.code ≠ .returnOutside := by
  constructor
  · have read : (broken.nodesOfTokens broken.tokens.1).1 = [
        .lambda ⟨⟨1, 30⟩, ⟨1, 53⟩⟩ [⟨"y", ⟨⟨1, 39⟩, ⟨1, 39⟩⟩⟩] none
          (.ret ⟨⟨1, 42⟩, ⟨1, 52⟩⟩ (.atom ⟨⟨1, 51⟩, ⟨1, 51⟩⟩ (.symbol "y")))] := by rfl
    have returns := read_proper_and_checked_inPlace.1 broken broken.tokens.1
    rw [read] at returns ⊢
    refine ⟨_, List.mem_cons_self, _, _, Node.Descends.child .here List.mem_cons_self, ?_⟩
    exact (returns _ List.mem_cons_self).1 _ _ (Node.Descends.child .here List.mem_cons_self)
  · have parses : unbound.parse.toOption.isSome = true := by decide +kernel
    have codes : (match unbound.check with
        | .ok _ => []
        | .error errors => errors.kept.map (·.code)) = [.undefinedName] := by decide +kernel
    cases parsed : unbound.parse with
    | error errors =>
      rw [parsed] at parses
      cases parses
    | ok forms =>
    cases checked : unbound.check with
    | ok tys =>
      rw [checked] at codes
      cases codes
    | error errors =>
      rw [checked] at codes
      exact ⟨errors, rfl, codes, read_proper_and_checked_inPlace.2 unbound forms errors parsed checked⟩

end Check

end CheckedLisp
