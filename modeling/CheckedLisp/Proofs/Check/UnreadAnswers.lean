import CheckedLisp.Proofs.Check.NormalForm
import CheckedLisp.Proofs.Check.Success
import CheckedLisp.Proofs.Check.Widening
import CheckedLisp.Proofs.Eval.ParameterBinding

/-! Checking and evaluation define parameters, the provisional name of a lambda and the wider type
of an assigned name without looking at whether this was accepted. No refusal is lost in this way:
the frames are new and the names in them differ, and a name that was found before an expression is
still there after it. -/
namespace CheckedLisp

namespace Check

open Sequencing

/-- What the definitions answer that bind parameters to their types. -/
def bindAnswers (frame : Scope) : List Name → List Ty → Checker → List Bool
  | param :: params, ty :: tys, c =>
    following (define frame param.text ty) c fun done c => done :: bindAnswers frame params tys c
  | _, _, _ => []

/-- What the definition of its own name answers to a lambda that is being defined. -/
def selfAnswers (scope : Scope) (ty : Ty) : Option String → Checker → List Bool
  | none, _ => []
  | some name, c =>
    following (enter scope none) c fun outer c => following (define outer name ty) c fun done _ => [done]

/-- The answers while the frames of a lambda are opened. -/
def openingAnswers (scope : Scope) (self : Option String) (span : Span) (params : List Name)
    (doc : Option String) (c : Checker) : List Bool :=
  following (signature span params doc) c fun (tys, declared) c =>
    selfAnswers scope (.function tys (declared.getD .any)) self c ++
      following (around scope self (.function tys (declared.getD .any))) c fun outer c =>
        following (enter outer (some [])) c fun frame c => bindAnswers frame params tys c

mutual

/-- The answers that the check of a node is given and does not read. -/
def unread (scope : Scope) : Node → Checker → List Bool
  | .unit _, _ | .atom _ _, _ | .quote _ _, _ => []
  | .block _ forms, c => following (enter scope none) c fun inner c => unreadAll inner forms c
  | .call _ callee args, c =>
    unread scope callee c ++ following (node scope callee) c fun _ c => unreadAll scope args c
  | .conditional _ branches otherwise, c =>
    unreadCases scope branches c ++ following (cases scope branches) c fun _ c => unread scope otherwise c
  | .loop _ predicate body, c =>
    unread scope predicate c ++ following (node scope predicate) c fun _ c => unread scope body c
  | .define _ name (.lambda span params doc body), c =>
    openingAnswers scope (some name.text) span params doc c ++
      following (openLambda scope (some name.text) span params doc) c fun opening c =>
        unread opening.frame body c
  | .define _ _ value, c => unread scope value c
  | .assign _ name value, c =>
    following (target scope name) c fun _ c =>
      unread scope value c ++ following (node scope value) c fun ty c =>
        following (change (·.widen scope name.text ty)) c fun done _ => [done]
  | .lambda span params doc body, c =>
    openingAnswers scope none span params doc c ++
      following (openLambda scope none span params doc) c fun opening c => unread opening.frame body c
  | .ret _ value, c => unread scope value c

def unreadAll (scope : Scope) : List Node → Checker → List Bool
  | [], _ => []
  | n :: ns, c => unread scope n c ++ following (node scope n) c fun _ c => unreadAll scope ns c

def unreadCases (scope : Scope) : List (Node × Node) → Checker → List Bool
  | [], _ => []
  | (predicate, body) :: rest, c =>
    unread scope predicate c ++ following (node scope predicate) c fun _ c =>
      unread scope body c ++ following (node scope body) c fun _ c => unreadCases scope rest c

end

variable {s : Scope} {c : Checker}

theorem bindAnswers_eq (frame : Scope) (params : List Name) (tys : List Ty) (c : Checker) :
    bindAnswers frame params tys c =
      (Heap.defineEach (fun h => TypeHeap.define h frame) ((params.map (·.text)).zip tys) c.heap).1 := by
  induction params generalizing tys c with
  | nil => rfl
  | cons param params ih =>
    cases tys with
    | nil => rfl
    | cons ty tys =>
      have answers := ih tys { c with heap := (c.heap.define frame param.text ty).2 }
      exact congrArg ((c.heap.define frame param.text ty).1 :: ·) answers

/-- There is one type for each parameter. -/
theorem length_of_signature {span : Span} {params : List Name} {doc : Option String} {c c' : Checker} {tys : List Ty}
    {declared : Option Ty} (read : signature span params doc c = .ok (tys, declared) c') :
    tys.length = params.length := by
  obtain ⟨-, ⟨-, same⟩ | ⟨_, _, _, -, -, count, -, same⟩⟩ := signature_ok.1 read
  · cases same
    exact List.length_map _
  · cases same
    exact count

theorem accepted_fresh {parent : Scope} {function : Option (List Ty)} {params : List Name} {tys : List Ty}
    (differ : (params.map (·.text)).Nodup) (count : tys.length = params.length) :
    ∀ done ∈ bindAnswers c.heap.next params tys (opened c parent function), done = true := by
  have names : ((params.map (·.text)).zip tys).map (·.1) = params.map (·.text) :=
    List.map_fst_zip (by simp [count])
  have accepted := (Heap.accepted_fresh (TypeHeap.bindsFree_define c.heap.next) (some parent) function
    (names ▸ differ)).1
  intro done answer
  rw [bindAnswers_eq] at answer
  exact List.eq_of_mem_replicate (accepted ▸ answer)

theorem accepted_self (scope : Scope) (ty : Ty) (self : Option String) (c : Checker) :
    ∀ done ∈ selfAnswers scope ty self c, done = true := by
  cases self with
  | none => exact List.forall_mem_nil _
  | some name =>
    have free : name ∉ (⟨some scope, none, []⟩ : Frame Ty (List Ty)).names := List.not_mem_nil
    have accepted := TypeHeap.bindsFree_define c.heap.next (opened c scope none).heap name ty _
      (Heap.frame?_add_next c.heap (some scope) none) free
    intro done answer
    rw [List.mem_singleton.1 answer]
    exact congrArg (·.1) accepted

theorem accepted_opening (s : Scope) (self : Option String) (span : Span) {params : List Name}
    (differ : (params.map (·.text)).Nodup) (doc : Option String) (c : Checker) :
    ∀ done ∈ openingAnswers s self span params doc c, done = true := by
  apply forall_following
  intro (tys, declared) c₁ read
  have count := length_of_signature read
  rw [List.forall_mem_append]
  refine ⟨accepted_self s _ self c₁, ?_⟩
  apply forall_following
  intro outer c₂ _
  apply forall_following
  intro frame c₃ entered
  cases entered
  exact accepted_fresh differ count

/-- The target of an assignment stays in sight while its value is checked. -/
theorem accepted_assign (sound : c.heap.Sound) (live : s < c.heap.next) (name : Name) (value : Node) {ty : Ty}
    {c₁ c₂ : Checker} {found : Unit} (allowed : target s name c = .ok found c₁)
    (checked : node s value c₁ = .ok ty c₂) : (c₂.heap.widen s name.text ty).1 = true := by
  obtain ⟨rfl, held, bound, _⟩ := target_eq_ok allowed
  have ended := node_ended value sound live
  rw [checked] at ended
  have seen : c₁.heap.Sees s name.text := (Heap.sees_iff_lookup _ _ _).2 (by simp [bound])
  exact TypeHeap.widen_of_sees (ended.evolved.stillSees sound.ordered ended.sound.ordered live seen) ty

/-- What is met after a node is met in frames that are in order. -/
theorem forall_following_node {P : Bool → Prop} (n : Node) (sound : c.heap.Sound) (live : s < c.heap.next)
    {met : Ty → Checker → List Bool}
    (each : ∀ ty c', c'.heap.Sound → s < c'.heap.next → ∀ d ∈ met ty c', P d) :
    ∀ d ∈ following (node s n) c met, P d := by
  apply forall_following
  intro ty c' checked
  obtain ⟨sound', live'⟩ := (node_ended n sound live).next checked live
  exact each ty c' sound' live'

mutual

/-- Of the answers that nobody reads, none is a refusal. -/
theorem accepted_unread (n : Node) {s : Scope} {c : Checker} (distinct : n.Distinct) (sound : c.heap.Sound)
    (live : s < c.heap.next) : ∀ done ∈ unread s n c, done = true := by
  match n with
  | .unit _ | .atom _ _ | .quote _ _ => exact List.forall_mem_nil _
  | .block span forms =>
    apply forall_following
    intro inner c' entered
    cases entered
    exact accepted_unreadAll forms (fun _ => distinct.child) (sound.child live) (Heap.lt_next_add _ _ _)
  | .call span callee args =>
    simp only [unread, List.forall_mem_append]
    refine ⟨accepted_unread callee (distinct.child List.mem_cons_self) sound live, ?_⟩
    refine forall_following_node callee sound live ?_
    intro function c' sound' live'
    exact accepted_unreadAll args (fun _ below => distinct.child (List.mem_cons_of_mem _ below)) sound' live'
  | .conditional span branches otherwise =>
    simp only [unread, List.forall_mem_append]
    refine ⟨accepted_unreadCases branches (fun _ below => distinct.child (List.mem_append_left _ below)) sound live, ?_⟩
    apply forall_following
    intro bodies c' checked
    obtain ⟨sound', live'⟩ := (cases_ended branches sound live).next checked live
    exact accepted_unread otherwise (distinct.child (List.mem_append_right _ List.mem_cons_self)) sound' live'
  | .loop span predicate body =>
    simp only [unread, List.forall_mem_append]
    refine ⟨accepted_unread predicate (distinct.child List.mem_cons_self) sound live, ?_⟩
    refine forall_following_node predicate sound live ?_
    intro ty c' sound' live'
    exact accepted_unread body (distinct.child (List.mem_cons_of_mem _ List.mem_cons_self)) sound' live'
  | .define span name v =>
    have distinctValue := distinct.child List.mem_cons_self
    have accepted := accepted_unread v distinctValue sound live
    cases v with
    | lambda lambdaSpan params doc body =>
      simp only [unread, List.forall_mem_append]
      have differ := distinctValue lambdaSpan params doc body .here
      refine ⟨accepted_opening s (some name.text) lambdaSpan differ doc c, ?_⟩
      refine forall_following_openLambda sound live ?_
      intro opening c' sound' live'
      exact accepted_unread body (distinctValue.child List.mem_cons_self) sound' live'
    | _ => exact accepted
  | .assign span name value =>
    apply forall_following
    intro found c₁ allowed
    have same := (target_eq_ok allowed).1
    rw [List.forall_mem_append]
    constructor
    · exact accepted_unread value (distinct.child List.mem_cons_self) (same ▸ sound) (same ▸ live)
    · apply forall_following
      intro ty c₂ checked
      exact List.forall_mem_singleton.2 (accepted_assign sound live name value allowed checked)
  | .lambda span params doc body =>
    simp only [unread, List.forall_mem_append]
    have differ := distinct span params doc body .here
    refine ⟨accepted_opening s none span differ doc c, ?_⟩
    refine forall_following_openLambda sound live ?_
    intro opening c' sound' live'
    exact accepted_unread body (distinct.child List.mem_cons_self) sound' live'
  | .ret span value => exact accepted_unread value (distinct.child List.mem_cons_self) sound live

theorem accepted_unreadAll (ns : List Node) {s : Scope} {c : Checker} (distinct : ∀ n ∈ ns, n.Distinct)
    (sound : c.heap.Sound) (live : s < c.heap.next) : ∀ done ∈ unreadAll s ns c, done = true := by
  match ns with
  | [] => exact List.forall_mem_nil _
  | n :: ns =>
    obtain ⟨distinctFirst, distinctRest⟩ := List.forall_mem_cons.1 distinct
    simp only [unreadAll, List.forall_mem_append]
    refine ⟨accepted_unread n distinctFirst sound live, ?_⟩
    refine forall_following_node n sound live ?_
    intro ty c' sound' live'
    exact accepted_unreadAll ns distinctRest sound' live'

theorem accepted_unreadCases (branches : List (Node × Node)) {s : Scope} {c : Checker}
    (distinct : ∀ n ∈ Node.caseNodes branches, n.Distinct) (sound : c.heap.Sound) (live : s < c.heap.next) :
    ∀ done ∈ unreadCases s branches c, done = true := by
  match branches with
  | [] => exact List.forall_mem_nil _
  | (predicate, body) :: rest =>
    obtain ⟨distinctTest, distinct⟩ := List.forall_mem_cons.1 distinct
    obtain ⟨distinctBody, distinctRest⟩ := List.forall_mem_cons.1 distinct
    simp only [unreadCases, List.forall_mem_append]
    refine ⟨accepted_unread predicate distinctTest sound live, ?_⟩
    refine forall_following_node predicate sound live ?_
    intro ty c₁ sound₁ live₁
    rw [List.forall_mem_append]
    refine ⟨accepted_unread body distinctBody sound₁ live₁, ?_⟩
    refine forall_following_node body sound₁ live₁ ?_
    intro ty c₂ sound₂ live₂
    exact accepted_unreadCases rest distinctRest sound₂ live₂

end

end Check

open Eval

/-- No refusal is lost. Whenever a run calls a closure with as many arguments as it has
parameters, all of them are bound before the body is evaluated; and whatever the check of a
program defines or widens without looking at the answer is accepted. -/
theorem Source.unread_answers_accept (src : Source) :
    (∀ moment ∈ src.moments, ∀ scope span closure args,
      moment.task = .apply scope span (.lambda closure) args → closure.params.length = args.length →
        moment.BindsAll closure args) ∧
    ∀ forms, src.parse = .ok forms →
      ∀ done ∈ Check.unreadAll TypeHeap.globalScope forms .start, done = true := by
  have distinct : ∀ nodes, src.parse = .ok nodes → ∀ n ∈ nodes, n.Distinct :=
    fun nodes parsed n member => (proper_of_parse parsed n member).distinct
  constructor
  · intro moment met scope span closure args applies count
    exact (src.kept_of_mem_moments Eval.distinct distinct moment met).bindsAll applies count
  · intro forms parsed
    exact Check.accepted_unreadAll forms (distinct forms parsed) TypeHeap.sound_start (by decide)

/-- A function that assigns to its parameter, and a call of it. -/
def assigning : Source := ⟨"assigning", "(define f (lambda (x y) (begin (set! x y) x))) (f 1 2)"⟩

/-- Whether a moment calls a closure of two parameters with two arguments. -/
def Eval.Moment.callsWithTwo (moment : Moment) : Bool :=
  match moment.task with
  | .apply _ _ (.lambda closure) args => closure.params.length = 2 && args.length = 2
  | _ => false

theorem Source.unread_answers_accept_assigning :
    (∃ moment ∈ assigning.moments, ∃ closure args, args.length = 2 ∧ moment.BindsAll closure args) ∧
    ∃ forms, assigning.parse = .ok forms ∧
      (Check.unreadAll TypeHeap.globalScope forms .start).length = 4 ∧
      ∀ done ∈ Check.unreadAll TypeHeap.globalScope forms .start, done = true := by
  have calls : (assigning.moments.find? (·.callsWithTwo)).isSome = true := by decide +kernel
  have answers : assigning.parse.toOption.map
      (fun forms => (Check.unreadAll TypeHeap.globalScope forms .start).length) = some 4 := by decide +kernel
  obtain ⟨binds, accepts⟩ := assigning.unread_answers_accept
  constructor
  · obtain ⟨moment, met, isCall⟩ := List.find?_isSome.1 calls
    unfold Moment.callsWithTwo at isCall
    split at isCall
    · next scope span closure args applies =>
      obtain ⟨params, count⟩ := Bool.and_eq_true_iff.1 isCall
      have params := of_decide_eq_true params
      have count := of_decide_eq_true count
      exact ⟨moment, met, closure, args, count,
        binds moment met scope span closure args applies (params.trans count.symm)⟩
    · cases isCall
  · cases parsed : assigning.parse with
    | error errors =>
      rw [parsed] at answers
      cases answers
    | ok forms =>
      rw [parsed] at answers
      exact ⟨forms, rfl, Option.some.inj answers, accepts forms parsed⟩

end CheckedLisp
