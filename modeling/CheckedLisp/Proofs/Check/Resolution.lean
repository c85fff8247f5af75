import CheckedLisp.Proofs.Check.Preservation

/-! The checker looks at every branch once and in the order of the text, so what it has seen is more
than what control has passed when definitions stand in branches. For a name that all conditionals
and loops settle the two are the same: code that checks resolves the name. -/
namespace CheckedLisp.Check

open Sequencing

variable {x : String} {s : Scope} {c c' : Checker} {bound : Bool}

theorem Ended.sees {α : Type} [Typed α] {new : String → Prop} {a : α} {x' : Action α} (ended : Ended s new c (x' c))
    (done : x' c = .ok a c') (sound : c.heap.Sound) (live : s < c.heap.next) (seen : c'.heap.Sees s x) :
    c.heap.Sees s x ∨ new x := by
  rw [done] at ended
  exact ended.evolved.sees sound.ordered ended.sound.ordered live seen

/-- After a node that settles all it binds, what is seen was seen before or is surely bound. -/
theorem seen_after {n : Node} {ty : Ty} (sound : c.heap.Sound) (live : s < c.heap.next)
    (straight : n.unsettles x bound = false) (seen : c.heap.Sees s x → bound = true)
    (checked : node s n c = .ok ty c') :
    c'.heap.Sees s x → (bound || n.surelyBinds (some x)) = true := by
  intro now
  cases bound with
  | true => rfl
  | false =>
    rcases (node_ended n sound live).sees checked sound live now with before | new
    · cases seen before
    · exact Node.surelyBinds_of_binds n straight new

/-- After a node that does not bind the name nothing has changed. -/
theorem seen_after_free {n : Node} {ty : Ty} (sound : c.heap.Sound) (live : s < c.heap.next)
    (free : n.binds x = false) (seen : c.heap.Sees s x → bound = true)
    (checked : node s n c = .ok ty c') : c'.heap.Sees s x → bound = true := by
  intro now
  rcases (node_ended n sound live).sees checked sound live now with before | new
  · exact seen before
  · cases free.symm.trans new

/-- A lambda that checks has checked its body, in a frame that sees its parameters and, if
it is being defined, its name. -/
theorem body_of_lambda {self : Option String} {span : Span} {params : List Name} {doc : Option String}
    {body : Scope → Action Ty} {ty : Ty} (sound : c.heap.Sound) (live : s < c.heap.next)
    (checked : lambda s self span params doc body c = .ok ty c') :
    ∃ frame c₁ last c₂, Inside s (Local self params) c c₁ frame ∧ body frame c₁ = .ok last c₂ := by
  simp only [lambda_eq, bind_eq_ok] at checked
  obtain ⟨opening, c₁, opened, last, c₂, checkedBody, _⟩ := checked
  rcases openLambda_cases sound live self span params doc with ⟨failure, refused⟩ | ⟨opening', c₁', opened', spec⟩
  · cases refused.symm.trans opened
  cases opened'.symm.trans opened
  exact ⟨opening.frame, c₁, last, c₂, spec.inside, checkedBody⟩

/-- The names that the frame of a lambda sees. -/
theorem seen_inside {self : Option String} {params : List Name} {c₁ : Checker} {frame : Scope}
    (inside : Inside s (Local self params) c c₁ frame) (seen : c.heap.Sees s x → bound = true) :
    c₁.heap.Sees frame x → (bound || decide (x ∈ self) || params.any (·.text == x)) = true := by
  intro now
  simp only [Bool.or_eq_true, decide_eq_true_eq, List.any_eq_true, beq_iff_eq]
  rcases inside.sees x now with (param | own) | before
  · exact .inr param
  · exact .inl (.inr own)
  · exact .inl (.inl (seen before))

mutual

theorem node_resolves (n : Node) {s : Scope} {c c' : Checker} {ty : Ty} {bound : Bool} (sound : c.heap.Sound)
    (live : s < c.heap.next) (unquoted : n.isUnquoted = true) (straight : n.unsettles x bound = false)
    (seen : c.heap.Sees s x → bound = true) (checked : node s n c = .ok ty c') :
    n.resolves x bound = true := by
  match n with
  | .unit _ | .atom _ (.bool _) | .atom _ (.int _) | .atom _ (.float _) | .atom _ (.string _) => rfl
  | .atom span (.symbol used) =>
    simp only [node, bind_eq_ok] at checked
    obtain ⟨_, c₁, ticked, rest⟩ := checked
    cases tick_eq_ok ticked
    obtain ⟨rfl, found⟩ := symbol_eq_ok rest
    by_cases same : used = x
    · subst same
      have isBound := seen ((Heap.sees_iff_lookup _ _ _).2 (by simp [found]))
      simp [Node.resolves, isBound]
    · simp [Node.resolves, same]
  | .block span forms =>
    simp only [node, bind_eq_ok] at checked
    obtain ⟨_, c₁, ticked, inner, c₂, entered, rest⟩ := checked
    cases tick_eq_ok ticked
    cases entered
    have seenInside : (c.heap.add (some s) none).Sees c.heap.next x → bound = true := by
      rw [Heap.sees_add_next sound.ordered live none]
      exact seen
    exact sequence_resolves forms (sound.child live) (Heap.lt_next_add _ _ _) unquoted straight
      seenInside rest
  | .call span callee args =>
    simp only [node, bind_eq_ok] at checked
    obtain ⟨_, c₁, ticked, function, c₂, calleeChecked, tys, c₃, argsChecked, _⟩ := checked
    cases tick_eq_ok ticked
    simp only [Node.isUnquoted, Bool.and_eq_true] at unquoted
    simp only [Node.unsettles, Bool.or_eq_false_iff] at straight
    simp only [Node.resolves, Bool.and_eq_true]
    obtain ⟨sound₂, live₂⟩ := (node_ended callee sound live).next calleeChecked live
    refine ⟨node_resolves callee sound live unquoted.1 straight.1 seen calleeChecked, ?_⟩
    exact nodes_resolve args sound₂ live₂ unquoted.2 straight.2
      (seen_after sound live straight.1 seen calleeChecked) argsChecked
  | .conditional span branches otherwise =>
    cases bound with
    | true => exact Node.resolves_bound _ unquoted
    | false =>
      cases binding : Node.binds x (.conditional span branches otherwise) with
      | true =>
        have settled := Node.settled_of_binds straight binding
        simp only [Node.settles, Bool.and_eq_true] at settled
        exact settled.2
      | false =>
        simp only [node, bind_eq_ok] at checked
        obtain ⟨_, c₁, ticked, bodies, c₂, branchesChecked, last, c₃, otherwiseChecked, _⟩ := checked
        cases tick_eq_ok ticked
        simp only [Node.isUnquoted, Bool.and_eq_true] at unquoted
        simp only [Node.unsettles, Bool.or_eq_false_iff] at straight
        simp only [Node.binds, Bool.or_eq_false_iff] at binding
        obtain ⟨sound₂, live₂⟩ := (cases_ended branches sound live).next branchesChecked live
        have unseen₂ : ¬ c₂.heap.Sees s x := by
          intro now
          rcases (cases_ended branches sound live).sees branchesChecked sound live now with before | new
          · cases seen before
          · cases binding.1.symm.trans new
        apply cases_resolve branches sound live unquoted.1 straight.2 binding.1 seen branchesChecked
        intro bound' straightLast
        exact node_resolves otherwise sound₂ live₂ unquoted.2 straightLast (absurd · unseen₂) otherwiseChecked
  | .loop span predicate body =>
    cases bound with
    | true => exact Node.resolves_bound _ unquoted
    | false =>
      cases binding : Node.binds x (.loop span predicate body) with
      | true =>
        have settled := Node.settled_of_binds straight binding
        simp only [Node.settles, Bool.and_eq_true] at settled
        exact settled.2
      | false =>
        simp only [node, bind_eq_ok] at checked
        obtain ⟨_, c₁, ticked, test, c₂, tested, _, c₃, accepted, _, c₄, bodyChecked, _⟩ := checked
        cases tick_eq_ok ticked
        obtain ⟨rfl, -⟩ := condition_eq_ok accepted
        simp only [Node.isUnquoted, Bool.and_eq_true] at unquoted
        simp only [Node.unsettles, Bool.or_eq_false_iff] at straight
        simp only [Node.resolves, Bool.and_eq_true]
        obtain ⟨sound₂, live₂⟩ := (node_ended predicate sound live).next tested live
        refine ⟨node_resolves predicate sound live unquoted.1 straight.2.1 seen tested, ?_⟩
        exact node_resolves body sound₂ live₂ unquoted.2 straight.2.2
          (seen_after sound live straight.2.1 seen tested) bodyChecked
  | .define span name v =>
    rw [node_define] at checked
    simp only [bind_eq_ok] at checked
    obtain ⟨_, c₁, ticked, kind, c₂, valueChecked, _⟩ := checked
    cases tick_eq_ok ticked
    cases v with
    | lambda lambdaSpan params doc body =>
      obtain ⟨frame, c₁, last, c₂, inside, bodyChecked⟩ := body_of_lambda sound live valueChecked
      have seenInside := seen_inside inside seen
      simp only [Option.mem_some_iff] at seenInside
      exact node_resolves body inside.sound inside.live unquoted straight seenInside bodyChecked
    | _ =>
      change Node.unsettles x _ (bound || false && name.text == x) = false at straight
      change Node.resolves x _ (bound || false && name.text == x) = true
      rw [Bool.false_and, Bool.or_false] at straight ⊢
      exact node_resolves _ sound live unquoted straight seen valueChecked
  | .assign span name value =>
    simp only [node, bind_eq_ok] at checked
    obtain ⟨_, c₁, ticked, _, c₂, allowed, kind, c₃, valueChecked, _⟩ := checked
    cases tick_eq_ok ticked
    obtain ⟨rfl, held, found, -⟩ := target_eq_ok allowed
    simp only [Node.resolves, Bool.and_eq_true]
    refine ⟨?_, node_resolves value sound live unquoted straight seen valueChecked⟩
    by_cases same : name.text = x
    · subst same
      have isBound := seen ((Heap.sees_iff_lookup _ _ _).2 (by simp [found]))
      simp [isBound]
    · simp [same]
  | .lambda span params doc body =>
    simp only [node, bind_eq_ok] at checked
    obtain ⟨_, c₁, ticked, rest⟩ := checked
    cases tick_eq_ok ticked
    obtain ⟨frame, c₁, last, c₂, inside, bodyChecked⟩ := body_of_lambda sound live rest
    have seenInside := seen_inside inside seen
    simp only [Option.not_mem_none, decide_false, Bool.or_false] at seenInside
    exact node_resolves body inside.sound inside.live unquoted straight seenInside bodyChecked
  | .quote span inner => cases unquoted
  | .ret span value =>
    simp only [node, bind_eq_ok] at checked
    obtain ⟨_, c₁, ticked, kind, c₂, valueChecked, _⟩ := checked
    cases tick_eq_ok ticked
    exact node_resolves value sound live unquoted straight seen valueChecked

theorem sequence_resolves (forms : List Node) {s : Scope} {c c' : Checker} {last ty : Ty} {bound : Bool}
    (sound : c.heap.Sound) (live : s < c.heap.next) (unquoted : Node.areUnquoted forms = true)
    (straight : Node.anyUnsettles x forms bound = false) (seen : c.heap.Sees s x → bound = true)
    (checked : sequence s last forms c = .ok ty c') : Node.resolvesAll x forms bound = true := by
  match forms with
  | [] => rfl
  | form :: forms =>
    simp only [sequence, bind_eq_ok] at checked
    obtain ⟨kind, c₁, here, later⟩ := checked
    simp only [Node.areUnquoted, Bool.and_eq_true] at unquoted
    simp only [Node.anyUnsettles, Bool.or_eq_false_iff] at straight
    simp only [Node.resolvesAll, Bool.and_eq_true]
    obtain ⟨sound₁, live₁⟩ := (node_ended form sound live).next here live
    refine ⟨node_resolves form sound live unquoted.1 straight.1 seen here, ?_⟩
    exact sequence_resolves forms sound₁ live₁ unquoted.2 straight.2
      (seen_after sound live straight.1 seen here) later

theorem nodes_resolve (ns : List Node) {s : Scope} {c c' : Checker} {tys : List Ty} {bound : Bool}
    (sound : c.heap.Sound) (live : s < c.heap.next) (unquoted : Node.areUnquoted ns = true)
    (straight : Node.anyUnsettles x ns bound = false) (seen : c.heap.Sees s x → bound = true)
    (checked : nodes s ns c = .ok tys c') : Node.resolvesAll x ns bound = true := by
  match ns with
  | [] => rfl
  | n :: ns =>
    simp only [nodes, bind_eq_ok] at checked
    obtain ⟨ty, c₁, here, others, c₂, later, _⟩ := checked
    simp only [Node.areUnquoted, Bool.and_eq_true] at unquoted
    simp only [Node.anyUnsettles, Bool.or_eq_false_iff] at straight
    simp only [Node.resolvesAll, Bool.and_eq_true]
    obtain ⟨sound₁, live₁⟩ := (node_ended n sound live).next here live
    refine ⟨node_resolves n sound live unquoted.1 straight.1 seen here, ?_⟩
    exact nodes_resolve ns sound₁ live₁ unquoted.2 straight.2
      (seen_after sound live straight.1 seen here) later

/-- The cases of a conditional that does not bind the name. -/
theorem cases_resolve (branches : List (Node × Node)) {s : Scope} {c c' : Checker} {tys : List Ty}
    {bound : Bool} {last lastUnsettles : Bool → Bool} (sound : c.heap.Sound) (live : s < c.heap.next)
    (unquoted : Node.casesUnquoted branches = true)
    (straight : Node.casesUnsettle x lastUnsettles branches bound = false)
    (free : Node.bindsCases x branches = false) (seen : c.heap.Sees s x → bound = true)
    (checked : cases s branches c = .ok tys c')
    (lastResolves : ∀ bound', lastUnsettles bound' = false → last bound' = true) :
    Node.resolvesCases x last branches bound = true := by
  match branches with
  | [] => exact lastResolves bound straight
  | (predicate, body) :: rest =>
    simp only [cases, bind_eq_ok] at checked
    obtain ⟨test, c₁, tested, _, c₂, accepted, ty, c₃, here, others, c₄, later, _⟩ := checked
    obtain ⟨rfl, -⟩ := condition_eq_ok accepted
    simp only [Node.casesUnquoted, Bool.and_eq_true] at unquoted
    simp only [Node.casesUnsettle, Bool.or_eq_false_iff] at straight
    simp only [Node.bindsCases, Bool.or_eq_false_iff] at free
    simp only [Node.resolvesCases, Bool.and_eq_true]
    obtain ⟨sound₁, live₁⟩ := (node_ended predicate sound live).next tested live
    obtain ⟨sound₃, live₃⟩ := (node_ended body sound₁ live₁).next here live₁
    have seen₁ := seen_after sound live straight.1.1 seen tested
    have seen₃ := seen_after_free sound₁ live₁ free.1.2 seen₁ here
    refine ⟨⟨node_resolves predicate sound live unquoted.1.1 straight.1.1 seen tested, ?_⟩, ?_⟩
    · exact node_resolves body sound₁ live₁ unquoted.1.2 straight.1.2 seen₁ here
    · exact cases_resolve rest sound₃ live₃ unquoted.2 straight.2 free.2 seen₃ later lastResolves

end

end CheckedLisp.Check
