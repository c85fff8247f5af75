import CheckedLisp.Proofs.Check.Preservation

/-! All types that checking gives or stores are in normal form, at every moment of a check and not
only at its end. The moments are listed: a checker comes to them when it turns to a part of a node,
when it leaves it, and in between while it opens the frames of a lambda. -/
namespace CheckedLisp.Check

/-- What is met after `action`, if it succeeds. -/
def following {α β : Type} (action : Action α) (c : Checker) (met : α → Checker → List β) : List β :=
  match action c with
  | .ok a c => met a c
  | .error _ _ => []

theorem forall_following {α β : Type} {action : Action α} {c : Checker} {met : α → Checker → List β}
    {P : β → Prop} (each : ∀ a c', action c = .ok a c' → ∀ d ∈ met a c', P d) :
    ∀ d ∈ following action c met, P d := by
  unfold following
  cases done : action c with
  | ok a c' => exact each a c' done
  | error failure c' => exact List.forall_mem_nil _

/-- A part of a node, with the moments inside it. -/
def visit (scope : Scope) (n : Node) (c : Checker) (inside : List Checker) : List Checker :=
  c :: inside ++ [Ending.checker (node scope n c)]

/-- The moments while parameters are bound. -/
def bindingMoments (frame : Scope) : List Name → List Ty → Checker → List Checker
  | param :: params, ty :: tys, c =>
    following (define frame param.text ty) c fun _ c => c :: bindingMoments frame params tys c
  | _, _, _ => []

/-- The moments while the frames of a lambda are opened. -/
def openingMoments (scope : Scope) (self : Option String) (span : Span) (params : List Name)
    (doc : Option String) (c : Checker) : List Checker :=
  following (signature span params doc) c fun (tys, declared) c =>
    (self.toList.map fun _ => opened c scope none) ++
      following (around scope self (.function tys (declared.getD .any))) c fun outer c =>
        c :: following (enter outer (some [])) c fun frame c => c :: bindingMoments frame params tys c

mutual

/-- The moments inside a node, between turning to it and leaving it. -/
def moments (scope : Scope) : Node → Checker → List Checker
  | .unit _, _ | .atom _ _, _ | .quote _ _, _ => []
  | .block _ forms, c => following (enter scope none) c fun inner c => c :: momentsAll inner forms c
  | .call _ callee args, c =>
    visit scope callee c (moments scope callee c) ++
      following (node scope callee) c fun _ c => momentsAll scope args c
  | .conditional _ branches otherwise, c =>
    momentsCases scope branches c ++ following (cases scope branches) c fun _ c =>
      visit scope otherwise c (moments scope otherwise c)
  | .loop _ predicate body, c =>
    visit scope predicate c (moments scope predicate c) ++
      following (node scope predicate) c fun _ c => visit scope body c (moments scope body c)
  | .define _ name (.lambda span params doc body), c =>
    openingMoments scope (some name.text) span params doc c ++
      following (openLambda scope (some name.text) span params doc) c (fun opening c =>
        visit opening.frame body c (moments opening.frame body c)) ++
      [Ending.checker (value scope name.text (.lambda span params doc body) c)]
  | .define _ _ value, c => visit scope value c (moments scope value c)
  | .assign _ _ value, c => visit scope value c (moments scope value c)
  | .lambda span params doc body, c =>
    openingMoments scope none span params doc c ++
      following (openLambda scope none span params doc) c fun opening c =>
        visit opening.frame body c (moments opening.frame body c)
  | .ret _ value, c => visit scope value c (moments scope value c)

/-- The moments while nodes are checked one after the other. -/
def momentsAll (scope : Scope) : List Node → Checker → List Checker
  | [], _ => []
  | n :: ns, c =>
    visit scope n c (moments scope n c) ++ following (node scope n) c fun _ c => momentsAll scope ns c

def momentsCases (scope : Scope) : List (Node × Node) → Checker → List Checker
  | [], _ => []
  | (predicate, body) :: rest, c =>
    visit scope predicate c (moments scope predicate c) ++
      following (node scope predicate) c fun _ c =>
        visit scope body c (moments scope body c) ++
          following (node scope body) c fun _ c => momentsCases scope rest c

end

theorem forall_visit {s : Scope} {n : Node} {c : Checker} {inside : List Checker} (sound : c.heap.Sound)
    (live : s < c.heap.next) (each : ∀ d ∈ inside, d.heap.Sound) :
    ∀ d ∈ visit s n c inside, d.heap.Sound := by
  intro d moment
  rcases List.mem_append.1 moment with before | last
  · rcases List.mem_cons.1 before with rfl | inner
    · exact sound
    · exact each d inner
  · rw [List.mem_singleton.1 last]
    exact (node_ended n sound live).sound

theorem sound_bindingMoments (params : List Name) {s : Scope} {tys : List Ty} {c : Checker}
    (sound : c.heap.Sound) (normal : ∀ ty ∈ tys, ty.Declared) :
    ∀ d ∈ bindingMoments s params tys c, d.heap.Sound := by
  induction params generalizing tys c with
  | nil => exact List.forall_mem_nil _
  | cons param params ih =>
    cases tys with
    | nil => exact List.forall_mem_nil _
    | cons ty tys =>
      obtain ⟨normalTy, normalTys⟩ := List.forall_mem_cons.1 normal
      apply forall_following
      intro _ c' defined
      cases defined
      have sound' := sound.define s param.text normalTy
      exact List.forall_mem_cons.2 ⟨sound', ih sound' normalTys⟩

theorem sound_openingMoments {s : Scope} {c : Checker} (sound : c.heap.Sound) (live : s < c.heap.next)
    (self : Option String) (span : Span) (params : List Name) (doc : Option String) :
    ∀ d ∈ openingMoments s self span params doc c, d.heap.Sound := by
  apply forall_following
  intro signature c₁ read
  rcases signature_cases span params doc c with ⟨failure, refused⟩ | ⟨tys, declared, found, normalTys, normalRet⟩
  · cases refused.symm.trans read
  cases found.symm.trans read
  rw [List.forall_mem_append]
  constructor
  · intro d moment
    obtain ⟨_, _, rfl⟩ := List.mem_map.1 moment
    exact sound.child live
  apply forall_following
  intro outer c₂ surrounded
  obtain ⟨outer', c₂', surrounded', inside, _⟩ :=
    around_cases sound live self params (declared_provisional normalTys normalRet)
  cases surrounded'.symm.trans surrounded
  refine List.forall_mem_cons.2 ⟨inside.sound, ?_⟩
  apply forall_following
  intro frame c₃ entered
  cases entered
  have sound₃ := inside.sound.functionChild inside.live
  exact List.forall_mem_cons.2 ⟨sound₃, sound_bindingMoments params sound₃ normalTys⟩

/-- The body of a lambda is checked in frames that are in order. -/
theorem forall_following_openLambda {β : Type} {P : β → Prop} {s : Scope} {c : Checker} (sound : c.heap.Sound)
    (live : s < c.heap.next) {self : Option String} {span : Span} {params : List Name} {doc : Option String}
    {met : Opening → Checker → List β}
    (each : ∀ opening c', c'.heap.Sound → opening.frame < c'.heap.next → ∀ d ∈ met opening c', P d) :
    ∀ d ∈ following (openLambda s self span params doc) c met, P d := by
  apply forall_following
  intro opening c' done
  rcases openLambda_cases sound live self span params doc with ⟨failure, refused⟩ | ⟨opening', c'', done', spec⟩
  · cases refused.symm.trans done
  cases done'.symm.trans done
  exact each _ _ spec.inside.sound spec.inside.live

theorem sound_bodyMoments {s : Scope} {c : Checker} (sound : c.heap.Sound) (live : s < c.heap.next)
    {self : Option String} {span : Span} {params : List Name} {doc : Option String} {body : Node}
    (each : ∀ frame c', c'.heap.Sound → frame < c'.heap.next → ∀ d ∈ moments frame body c', d.heap.Sound) :
    ∀ d ∈ following (openLambda s self span params doc) c (fun opening c =>
      visit opening.frame body c (moments opening.frame body c)), d.heap.Sound := by
  refine forall_following_openLambda sound live ?_
  intro opening c' sound' live'
  exact forall_visit sound' live' (each _ _ sound' live')

mutual

/-- At every moment of a check all stored types are in normal form. -/
theorem sound_moments (n : Node) {s : Scope} {c : Checker} (sound : c.heap.Sound) (live : s < c.heap.next) :
    ∀ d ∈ moments s n c, d.heap.Sound := by
  match n with
  | .unit _ | .atom _ _ | .quote _ _ => exact List.forall_mem_nil _
  | .block span forms =>
    apply forall_following
    intro inner c' entered
    cases entered
    have sound' := sound.child live
    exact List.forall_mem_cons.2 ⟨sound', sound_momentsAll forms sound' (Heap.lt_next_add _ _ _)⟩
  | .call span callee args =>
    simp only [moments, List.forall_mem_append]
    refine ⟨forall_visit sound live (sound_moments callee sound live), ?_⟩
    apply forall_following
    intro function c' checked
    obtain ⟨sound', live'⟩ := (node_ended callee sound live).next checked live
    exact sound_momentsAll args sound' live'
  | .conditional span branches otherwise =>
    simp only [moments, List.forall_mem_append]
    refine ⟨sound_momentsCases branches sound live, ?_⟩
    apply forall_following
    intro bodies c' checked
    obtain ⟨sound', live'⟩ := (cases_ended branches sound live).next checked live
    exact forall_visit sound' live' (sound_moments otherwise sound' live')
  | .loop span predicate body =>
    simp only [moments, List.forall_mem_append]
    refine ⟨forall_visit sound live (sound_moments predicate sound live), ?_⟩
    apply forall_following
    intro ty c' checked
    obtain ⟨sound', live'⟩ := (node_ended predicate sound live).next checked live
    exact forall_visit sound' live' (sound_moments body sound' live')
  | .define span name v =>
    cases v with
    | lambda lambdaSpan params doc body =>
      simp only [moments, List.forall_mem_append]
      refine ⟨⟨sound_openingMoments sound live (some name.text) lambdaSpan params doc, ?_⟩, ?_⟩
      · apply sound_bodyMoments sound live
        intro frame c' sound' live'
        exact sound_moments body sound' live'
      · intro d last
        rw [List.mem_singleton.1 last]
        have checked : Ended s (fun _ => False) c (value s name.text (.lambda lambdaSpan params doc body) c) :=
          defined_lambda_ended sound live name.text lambdaSpan params doc body
        exact checked.sound
    | _ => exact forall_visit sound live (sound_moments _ sound live)
  | .assign span name value => exact forall_visit sound live (sound_moments value sound live)
  | .lambda span params doc body =>
    simp only [moments, List.forall_mem_append]
    refine ⟨sound_openingMoments sound live none span params doc, ?_⟩
    apply sound_bodyMoments sound live
    intro frame c' sound' live'
    exact sound_moments body sound' live'
  | .ret span value => exact forall_visit sound live (sound_moments value sound live)

theorem sound_momentsAll (ns : List Node) {s : Scope} {c : Checker} (sound : c.heap.Sound)
    (live : s < c.heap.next) : ∀ d ∈ momentsAll s ns c, d.heap.Sound := by
  match ns with
  | [] => exact List.forall_mem_nil _
  | n :: ns =>
    simp only [momentsAll, List.forall_mem_append]
    refine ⟨forall_visit sound live (sound_moments n sound live), ?_⟩
    apply forall_following
    intro ty c' checked
    obtain ⟨sound', live'⟩ := (node_ended n sound live).next checked live
    exact sound_momentsAll ns sound' live'

theorem sound_momentsCases (branches : List (Node × Node)) {s : Scope} {c : Checker} (sound : c.heap.Sound)
    (live : s < c.heap.next) : ∀ d ∈ momentsCases s branches c, d.heap.Sound := by
  match branches with
  | [] => exact List.forall_mem_nil _
  | (predicate, body) :: rest =>
    simp only [momentsCases, List.forall_mem_append]
    refine ⟨forall_visit sound live (sound_moments predicate sound live), ?_⟩
    apply forall_following
    intro ty c₁ checked₁
    obtain ⟨sound₁, live₁⟩ := (node_ended predicate sound live).next checked₁ live
    rw [List.forall_mem_append]
    refine ⟨forall_visit sound₁ live₁ (sound_moments body sound₁ live₁), ?_⟩
    apply forall_following
    intro ty c₂ checked₂
    obtain ⟨sound₂, live₂⟩ := (node_ended body sound₁ live₁).next checked₂ live₁
    exact sound_momentsCases rest sound₂ live₂

end

/-- All types that frames bind or gather are in normal form. -/
def StoresNormal (c : Checker) : Prop :=
  ∀ s frame, c.heap.frame? s = some frame →
    (∀ binding ∈ frame.bindings, binding.2.Normal) ∧ ∀ gathered ∈ frame.function, ∀ ty ∈ gathered, ty.Normal

theorem storesNormal_of_sound {c : Checker} (sound : c.heap.Sound) : StoresNormal c := by
  intro s frame found
  have inside := sound.frames s frame found
  refine ⟨fun binding bound => (inside.types binding bound).normal, ?_⟩
  intro gathered held ty member
  exact (inside.returns gathered held ty member).normal

/-- Types stay in normal form: those that a source has, those that frames store at any
moment of its check, those that annotations and doc strings declare, and joins of such. -/
theorem types_normal :
    (∀ (src : Source) (tys : List Ty), src.check = .ok tys → ∀ ty ∈ tys, ty.Normal) ∧
    (∀ (src : Source) (forms : List Node), src.parse = .ok forms →
      ∀ c ∈ Checker.start :: momentsAll TypeHeap.globalScope forms .start, StoresNormal c) ∧
    (∀ (text : String) (ty : Ty), TypeText.read text = .ok ty → ty.Normal) ∧
    (∀ (doc : String) (ty : Ty), TypeText.ofDoc doc = .ok (some ty) → ty.Normal) ∧
    ∀ tys : List Ty, (∀ ty ∈ tys, ty.Normal) → (Ty.join tys).Normal := by
  have live : TypeHeap.globalScope < Checker.start.heap.next := by decide
  refine ⟨?_, ?_, fun _ _ read => (TypeText.declared_of_read read).normal,
    fun _ _ read => (TypeText.declared_of_doc read).normal, fun _ normal => Ty.normal_join normal⟩
  · intro src tys checked ty member
    obtain ⟨forms, _, rest⟩ := Sequencing.except_bind_eq_ok.1 checked
    have ended := nodes_ended forms TypeHeap.sound_start live
    split at rest
    · next run =>
      rw [run] at ended
      cases rest
      exact (ended.normal ty member).normal
    · cases rest
  · intro src forms _ c moment
    apply storesNormal_of_sound
    rcases List.mem_cons.1 moment with rfl | later
    · exact TypeHeap.sound_start
    · exact sound_momentsAll forms TypeHeap.sound_start live c later

/-- A program that assigns a string where a number was. -/
def reassigning : Source := ⟨"reassigning", "(define x 1) (set! x \"a\") x"⟩

theorem types_normal_reassigning :
    ∃ tys, reassigning.check = .ok tys ∧ tys.map Ty.text = ["Unit", "Unit", "(Union Int String)"] ∧
      ∀ ty ∈ tys, ty.Normal := by
  have texts : reassigning.check.toOption.map (·.map Ty.text) =
      some ["Unit", "Unit", "(Union Int String)"] := by decide +kernel
  cases checked : reassigning.check with
  | error errors =>
    rw [checked] at texts
    cases texts
  | ok tys =>
    rw [checked] at texts
    exact ⟨tys, rfl, Option.some.inj texts, types_normal.1 reassigning tys checked⟩

end CheckedLisp.Check
