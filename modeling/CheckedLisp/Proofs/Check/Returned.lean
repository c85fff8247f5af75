import CheckedLisp.Proofs.Check.Success
import CheckedLisp.Proofs.Check.Visits
import Mathlib.Data.List.Find

/-! The frame of a function gathers the types of the `return!` forms that are checked in it. A check
adds to the innermost function around its scope one type for each `return!` form of that function,
in the order in which their checks end, and nothing to any other function. So an undeclared lambda
returns the join of what its own `return!` forms and its body have. -/
namespace CheckedLisp

namespace Node

def isReturn : Node → Bool
  | .ret _ _ => true
  | _ => false

mutual

/-- The `return!` forms of the function that the node is in, each behind those inside it. -/
def returns : Node → List Node
  | .unit _ | .atom _ _ | .lambda _ _ _ _ | .quote _ _ => []
  | .block _ forms => returnsAll forms
  | .call _ callee args => returns callee ++ returnsAll args
  | .conditional _ branches otherwise => returnsCases branches ++ returns otherwise
  | .loop _ predicate body => returns predicate ++ returns body
  | .define _ _ value => returns value
  | .assign _ _ value => returns value
  | .ret span value => returns value ++ [.ret span value]

def returnsAll : List Node → List Node
  | [] => []
  | n :: ns => returns n ++ returnsAll ns

def returnsCases : List (Node × Node) → List Node
  | [] => []
  | (predicate, body) :: rest => returns predicate ++ (returns body ++ returnsCases rest)

end

end Node

namespace Heap

variable {α ρ : Type} {h : Heap α ρ} {s : Scope}

/-- The frame of a function is the innermost one around itself. -/
theorem function?_self (ordered : h.Ordered) {frame : Frame α ρ} (found : h.frame? s = some frame)
    (isFunction : frame.function.isSome = true) : h.function? s = some s := by
  obtain ⟨rest, chain⟩ := List.head?_eq_some_iff.1 (ordered.grounded (lt_next_of_frame? found)).head
  simp [function?, chain, found, isFunction]

theorem function?_add_of_lt (ordered : h.Ordered) {parent : Scope} (old : parent < h.next) (function : Option ρ)
    (live : s < h.next) : (h.add (some parent) function).function? s = h.function? s := by
  rw [function?, (keeps_add h (some parent) function).chain ordered (ordered.add old function) live]
  apply List.find?_congr
  intro t onChain
  rw [frame?_add_of_lt h (some parent) function (lt_next_of_mem_chain ordered live onChain)]

/-- A block lies in the function that it was opened in. -/
theorem function?_add_next (ordered : h.Ordered) (live : s < h.next) :
    (h.add (some s) none).function? h.next = h.function? s := by
  rw [← function?_add_of_lt ordered live none live, function?,
    chain_child (ordered.add live none) (frame?_add_next h (some s) none) rfl]
  simp [function?]

end Heap

namespace TypeHeap

/-- The types `added` were recorded in the innermost function around `s`, and nothing in any
other frame. Frames may have been opened and names bound. -/
structure Gathered (s : Scope) (added : List Ty) (h h' : TypeHeap) : Prop where
  next : h.next ≤ h'.next
  ordered : h'.Ordered
  kept : ∀ t frame, h.frame? t = some frame → ∃ frame', h'.frame? t = some frame' ∧
    frame'.parent = frame.parent ∧
    frame'.function = if h.function? s = some t then frame.function.map (· ++ added) else frame.function

section

variable {h h₁ h₂ : TypeHeap} {s t u : Scope} {added more : List Ty}

theorem Gathered.keeps (gathered : Gathered s added h h₁) : Heap.Keeps h h₁ := by
  refine ⟨gathered.next, ?_⟩
  intro t frame found
  obtain ⟨frame', found', parent, -⟩ := gathered.kept t frame found
  exact ⟨frame', found', parent⟩

theorem Gathered.function? (gathered : Gathered s added h h₁) (ordered : h.Ordered) (live : t < h.next) :
    h₁.function? t = h.function? t := by
  rw [Heap.function?, gathered.keeps.chain ordered gathered.ordered live]
  apply List.find?_congr
  intro u onChain
  obtain ⟨frame, found⟩ := Heap.exists_frame? (Heap.lt_next_of_mem_chain ordered live onChain)
  obtain ⟨frame', found', -, function⟩ := gathered.kept u frame found
  simp only [found, found', Option.any_some, function]
  split
  · exact Option.isSome_map
  · rfl

theorem Gathered.refl (s : Scope) (ordered : h.Ordered) : Gathered s [] h h :=
  ⟨Nat.le_refl _, ordered, fun _ frame found => ⟨frame, found, rfl, by simp⟩⟩

theorem Gathered.trans (ordered : h.Ordered) (live : s < h.next) (first : Gathered s added h h₁)
    (second : Gathered s more h₁ h₂) : Gathered s (added ++ more) h h₂ := by
  refine ⟨Nat.le_trans first.next second.next, second.ordered, ?_⟩
  intro t frame found
  obtain ⟨frame₁, found₁, parent₁, function₁⟩ := first.kept t frame found
  obtain ⟨frame₂, found₂, parent₂, function₂⟩ := second.kept t frame₁ found₁
  refine ⟨frame₂, found₂, parent₂.trans parent₁, ?_⟩
  rw [function₂, function₁, first.function? ordered live]
  split
  · simp [Function.comp_def]
  · rfl

/-- What a younger function gathers does not concern the older frames. -/
theorem Gathered.inner (first : Gathered s [] h h₁) (second : Gathered u more h₁ h₂)
    (young : ∀ t, h₁.function? u = some t → h.next ≤ t) : Gathered s [] h h₂ := by
  refine ⟨Nat.le_trans first.next second.next, second.ordered, ?_⟩
  intro t frame found
  obtain ⟨frame₁, found₁, parent₁, function₁⟩ := first.kept t frame found
  obtain ⟨frame₂, found₂, parent₂, function₂⟩ := second.kept t frame₁ found₁
  refine ⟨frame₂, found₂, parent₂.trans parent₁, ?_⟩
  have other : h₁.function? u ≠ some t := by
    intro same
    exact Nat.not_le_of_lt (Heap.lt_next_of_frame? found) (young t same)
  rw [function₂, if_neg other, function₁]

theorem gathered_add (s : Scope) (ordered : h.Ordered) (live : t < h.next) (function : Option (List Ty)) :
    Gathered s [] h (h.add (some t) function) := by
  refine ⟨(Heap.keeps_add h (some t) function).next, ordered.add live function, ?_⟩
  intro u frame found
  refine ⟨frame, ?_, rfl, by simp⟩
  rw [Heap.frame?_add_of_lt h (some t) function (Heap.lt_next_of_frame? found), found]

/-- What a block gathers belongs to the function around it. -/
theorem Gathered.leave (ordered : h.Ordered) (live : s < h.next)
    (inside : Gathered h.next added (h.add (some s) none) h₁) : Gathered s added h h₁ := by
  refine ⟨Nat.le_trans (Heap.keeps_add h (some s) none).next inside.next, inside.ordered, ?_⟩
  intro t frame found
  have found₁ : (h.add (some s) none).frame? t = some frame := by
    rw [Heap.frame?_add_of_lt h (some s) none (Heap.lt_next_of_frame? found), found]
  have kept := inside.kept t frame found₁
  rwa [Heap.function?_add_next ordered live] at kept

theorem gathered_modify (s : Scope) (ordered : h.Ordered) (t : Scope) {change : TypeFrame → TypeFrame}
    (parent : ∀ frame, (change frame).parent = frame.parent)
    (function : ∀ frame, (change frame).function = frame.function) :
    Gathered s [] h (Heap.modify h t change) := by
  refine ⟨by simp, ordered.modify t parent, ?_⟩
  intro u frame found
  by_cases here : t = u
  · exact ⟨change frame, by simp [Heap.frame?_modify, here, found], parent frame, by simp [function]⟩
  · exact ⟨frame, by simp [Heap.frame?_modify, here, found], rfl, by simp⟩

theorem gathered_define (s : Scope) (ordered : h.Ordered) (t : Scope) (name : String) (ty : Ty) :
    Gathered s [] h (h.define t name ty).2 := by
  rcases define_cases h t name ty with ⟨_, bound⟩ | ⟨_, _, _, _, _, _, bound⟩ | refused
  · rw [bound]
    exact gathered_modify s ordered t (fun _ => rfl) fun _ => rfl
  · rw [bound]
    exact gathered_modify s ordered t (fun _ => rfl) fun _ => rfl
  · rw [refused]
    exact .refl s ordered

theorem gathered_widen (s : Scope) (ordered : h.Ordered) (t : Scope) (name : String) (ty : Ty) :
    Gathered s [] h (h.widen t name ty).2 := by
  simp only [TypeHeap.widen]
  split
  · exact .refl s ordered
  · split
    · exact .refl s ordered
    · exact gathered_modify s ordered _ (fun _ => rfl) fun _ => rfl

theorem gathered_recordReturn (ordered : h.Ordered) {ty : Ty} (recorded : h.recordReturn s ty = (true, h₁)) :
    h.function? s ≠ none ∧ Gathered s [ty] h h₁ := by
  simp only [TypeHeap.recordReturn] at recorded
  split at recorded
  · cases recorded
  · next owner here =>
    cases recorded
    refine ⟨by simp [here], by simp, ordered.modify owner fun _ => rfl, ?_⟩
    intro t frame found
    by_cases own : owner = t
    · exact ⟨{ frame with function := frame.function.map (· ++ [ty]) },
        by simp [Heap.frame?_modify, own, found], rfl, by simp [here, own]⟩
    · exact ⟨frame, by simp [Heap.frame?_modify, own, found], rfl, by simp [here, own]⟩

theorem Gathered.clearReturns (gathered : Gathered s added h h₁) (young : h.next ≤ t) :
    Gathered s added h (h₁.clearReturns t) := by
  refine ⟨by simpa [TypeHeap.clearReturns] using gathered.next, gathered.ordered.modify t fun _ => rfl, ?_⟩
  intro u frame found
  have other : t ≠ u := Nat.ne_of_gt (Nat.lt_of_lt_of_le (Heap.lt_next_of_frame? found) young)
  obtain ⟨frame', found', kept⟩ := gathered.kept u frame found
  exact ⟨frame', by simp [TypeHeap.clearReturns, Heap.frame?_modify, other, found'], kept⟩

end

end TypeHeap

namespace Check

/-- A `return!` form with the type that the check gave it. -/
def Visit.return? (v : Visit) : Option (Node × Ty) := if v.node.isReturn then v.ty?.map (v.node, ·) else none

/-- The `return!` forms that a check meets in the function around a node, with their types. -/
def returned (s : Scope) (n : Node) (c : Checker) : List (Node × Ty) :=
  (visits false s n c).filterMap Visit.return?

def returnedAll (s : Scope) (ns : List Node) (c : Checker) : List (Node × Ty) :=
  (visitsAll false s ns c).filterMap Visit.return?

def returnedCases (s : Scope) (branches : List (Node × Node)) (c : Checker) : List (Node × Ty) :=
  (visitsCases false s branches c).filterMap Visit.return?

variable {s : Scope} {c c' c'' : Checker} {ty : Ty} {forms forms' : List Node} {entries entries' : List (Node × Ty)}

theorem returned_of_not_isReturn {n : Node} (running : c.cancelled = false) (plain : n.isReturn = false) :
    returned s n c = (visitsInside false s n c).filterMap Visit.return? := by
  simp [returned, visits, leave_running running, Visit.return?, plain]

theorem returned_define {span : Span} {name : Name} {v : Node} (running : c.cancelled = false)
    (plain : v.isLambda = false) : returned s (.define span name v) c = returned s v c := by
  rw [returned_of_not_isReturn running rfl, visitsInside.eq_def]
  cases v with
  | lambda lambdaSpan params doc body => cases plain
  | _ => rfl

/-- A check that met these `return!` forms of the function around `s`. -/
structure Gathers (s : Scope) (forms : List Node) (entries : List (Node × Ty)) (c c' : Checker) : Prop where
  each : entries.map (·.1) = forms
  heap : c.heap.Gathered s (entries.map (·.2)) c'.heap
  inside : c.heap.function? s = none → forms = []

theorem Gathers.none (gathered : c.heap.Gathered s [] c'.heap) : Gathers s [] [] c c' :=
  ⟨rfl, gathered, fun _ => rfl⟩

theorem Gathers.trans (ordered : c.heap.Ordered) (live : s < c.heap.next) (first : Gathers s forms entries c c')
    (second : Gathers s forms' entries' c' c'') : Gathers s (forms ++ forms') (entries ++ entries') c c'' where
  each := by rw [List.map_append, first.each, second.each]
  heap := by
    rw [List.map_append]
    exact first.heap.trans ordered live second.heap
  inside outside := by
    rw [first.inside outside, second.inside (by rw [first.heap.function? ordered live, outside]), List.nil_append]

theorem Gathers.live (gathers : Gathers s forms entries c c') (live : s < c.heap.next) : s < c'.heap.next :=
  Nat.lt_of_lt_of_le live gathers.heap.next

theorem gathered_bindAll {frame : Scope} {params : List Name} {tys : List Ty} {done : Unit}
    (ordered : c.heap.Ordered) (live : s < c.heap.next) (bound : bindAll frame params tys c = .ok done c') :
    c.heap.Gathered s [] c'.heap := by
  induction params generalizing tys c with
  | nil =>
    cases bound
    exact .refl s ordered
  | cons param params ih =>
    cases tys with
    | nil =>
      cases bound
      exact .refl s ordered
    | cons ty tys =>
      obtain ⟨_, c₁, defined, rest⟩ := Sequencing.bind_eq_ok.1 bound
      cases defined
      have first := TypeHeap.gathered_define s ordered frame param.text ty
      exact first.trans ordered live (ih first.ordered (Nat.lt_of_lt_of_le live first.next) rest)

theorem gathered_around {self : Option String} {outer : Scope} (ordered : c.heap.Ordered) (live : s < c.heap.next)
    (surrounded : around s self ty c = .ok outer c') :
    c.heap.Gathered s [] c'.heap ∧ outer < c'.heap.next := by
  cases self with
  | none =>
    cases surrounded
    exact ⟨.refl s ordered, live⟩
  | some name =>
    cases surrounded
    have entered := TypeHeap.gathered_add s ordered live none
    have defined := TypeHeap.gathered_define s entered.ordered c.heap.next name ty
    refine ⟨entered.trans ordered live defined, Nat.lt_of_lt_of_le ?_ defined.next⟩
    exact Heap.lt_next_add c.heap (some s) none

/-- A lambda opens a frame of its own, which has gathered nothing. -/
structure OpensFunction (s : Scope) (c c' : Checker) (frame : Scope) : Prop where
  gathered : c.heap.Gathered s [] c'.heap
  young : c.heap.next ≤ frame
  live : frame < c'.heap.next
  own : c'.heap.function? frame = some frame
  empty : c'.heap.returns frame = []

theorem opensFunction_of_openLambda {self : Option String} {span : Span} {params : List Name} {doc : Option String}
    {opening : Opening} (ordered : c.heap.Ordered) (live : s < c.heap.next)
    (opens : openLambda s self span params doc c = .ok opening c') : OpensFunction s c c' opening.frame := by
  obtain ⟨tys, declared, outer, c₁, -, surrounded, bound, rfl⟩ := openLambda_ok.1 opens
  obtain ⟨around, liveOuter⟩ := gathered_around ordered live surrounded
  have liveFrame := Heap.lt_next_add c₁.heap (some outer) (some [])
  have entered := TypeHeap.gathered_add s around.ordered liveOuter (some [])
  have live₁ := Nat.lt_of_lt_of_le live around.next
  have binds := gathered_bindAll entered.ordered (Nat.lt_of_lt_of_le live₁ entered.next) bound
  have bindsOwn := gathered_bindAll entered.ordered liveFrame bound
  obtain ⟨frame, found, -, function⟩ :=
    bindsOwn.kept c₁.heap.next _ (Heap.frame?_add_next c₁.heap (some outer) (some []))
  have empty : frame.function = some [] := by simpa using function
  exact {
    gathered := around.trans ordered live (entered.trans around.ordered live₁ binds)
    young := around.next
    live := Nat.lt_of_lt_of_le liveFrame binds.next
    own := Heap.function?_self binds.ordered found (by simp [empty])
    empty := by simp [TypeHeap.returns, found, empty] }

/-- What the frame of a function gathers while its body is checked. -/
theorem returns_of_gathered {frame : Scope} {added : List Ty} (live : frame < c.heap.next)
    (own : c.heap.function? frame = some frame) (empty : c.heap.returns frame = [])
    (gathered : c.heap.Gathered frame added c'.heap) : c'.heap.returns frame = added := by
  obtain ⟨old, found⟩ := Heap.exists_frame? live
  obtain ⟨new, found', -, function⟩ := gathered.kept frame old found
  rw [if_pos own] at function
  have isFunction : old.function.isSome = true := by
    have owner := List.find?_some own
    simpa [found] using owner
  obtain ⟨before, held⟩ := Option.isSome_iff_exists.1 isFunction
  simp only [TypeHeap.returns, found, held, Option.bind_some, Option.getD_some] at empty
  simp [TypeHeap.returns, found', function, held, empty]

theorem gathered_lambda {self : Option String} {span : Span} {params : List Name} {doc : Option String}
    {body : Scope → Action Ty} (ordered : c.heap.Ordered) (live : s < c.heap.next)
    (checked : lambda s self span params doc body c = .ok ty c')
    (inside : ∀ frame c₁ last c₂, c₁.heap.Ordered → frame < c₁.heap.next → body frame c₁ = .ok last c₂ →
      ∃ added, c₁.heap.Gathered frame added c₂.heap) : c.heap.Gathered s [] c'.heap := by
  obtain ⟨opening, c₁, last, c₂, opens, checkedBody, -, rfl⟩ := lambda_ok.1 checked
  have spec := opensFunction_of_openLambda ordered live opens
  obtain ⟨added, gathered⟩ := inside opening.frame c₁ last c₂ spec.gathered.ordered spec.live checkedBody
  refine (spec.gathered.inner gathered ?_).clearReturns spec.young
  intro t same
  rw [spec.own] at same
  exact Option.some.inj same ▸ spec.young

mutual

theorem node_gathers (n : Node) {s : Scope} {c c' : Checker} {ty : Ty} (ordered : c.heap.Ordered)
    (live : s < c.heap.next) (checked : node s n c = .ok ty c') : Gathers s n.returns (returned s n c) c c' := by
  cases n with
  | unit span =>
    obtain ⟨running, -, rfl⟩ := node_unit_ok.1 checked
    rw [returned_of_not_isReturn running rfl]
    exact .none (.refl s ordered)
  | atom span value =>
    obtain ⟨running, -, rfl⟩ := node_atom_ok.1 checked
    rw [returned_of_not_isReturn running rfl]
    exact .none (.refl s ordered)
  | block span forms =>
    obtain ⟨running, checkedForms⟩ := node_block_ok.1 checked
    have inside := sequence_gathers forms (ordered.add live none) (Heap.lt_next_add _ _ _) checkedForms
    have entries : returned s (.block span forms) c = returnedAll c.heap.next forms (opened c s none) :=
      returned_of_not_isReturn running rfl
    rw [entries]
    refine ⟨inside.each, inside.heap.leave ordered live, ?_⟩
    intro outside
    exact inside.inside (by rw [← outside]; exact Heap.function?_add_next ordered live)
  | call span callee args =>
    obtain ⟨running, function, c₁, tys, checkedCallee, checkedArgs, -⟩ := node_call_ok.1 checked
    have first := node_gathers callee ordered live checkedCallee
    have second := nodes_gather args first.heap.ordered (first.live live) checkedArgs
    have entries : returned s (.call span callee args) c = returned s callee c ++ returnedAll s args c₁ := by
      rw [returned_of_not_isReturn running rfl, visitsInside, following_ok checkedCallee, List.filterMap_append]
      rfl
    rw [entries]
    exact first.trans ordered live second
  | conditional span branches otherwise =>
    obtain ⟨running, bodies, c₁, last, checkedCases, checkedLast, -⟩ := node_conditional_ok.1 checked
    have first := cases_gather branches ordered live checkedCases
    have second := node_gathers otherwise first.heap.ordered (first.live live) checkedLast
    have entries : returned s (.conditional span branches otherwise) c =
        returnedCases s branches c ++ returned s otherwise c₁ := by
      rw [returned_of_not_isReturn running rfl, visitsInside, following_ok checkedCases, List.filterMap_append]
      rfl
    rw [entries]
    exact first.trans ordered live second
  | loop span predicate body =>
    obtain ⟨running, test, c₁, last, checkedTest, accepted, checkedBody, -⟩ := node_loop_ok.1 checked
    have first := node_gathers predicate ordered live checkedTest
    have second := node_gathers body first.heap.ordered (first.live live) checkedBody
    have entries : returned s (.loop span predicate body) c = returned s predicate c ++ returned s body c₁ := by
      have passed : condition predicate.span test c₁ = .ok () c₁ := condition_ok.2 ⟨accepted, rfl⟩
      rw [returned_of_not_isReturn running rfl, visitsInside, following_ok checkedTest, following_ok passed,
        List.filterMap_append]
      rfl
    rw [entries]
    exact first.trans ordered live second
  | define span name v =>
    obtain ⟨running, kind, c₁, heap, checkedValue, defined, rfl, -⟩ := node_define_ok.1 checked
    have first : Gathers s v.returns (returned s (.define span name v) c) c c₁ := by
      cases v with
      | lambda lambdaSpan params doc body =>
        rw [returned_of_not_isReturn running rfl]
        refine .none (gathered_lambda ordered live checkedValue ?_)
        intro frame c₁ last c₂ ordered₁ live₁ checkedBody
        exact ⟨_, (node_gathers body ordered₁ live₁ checkedBody).heap⟩
      | _ =>
        rw [returned_define running]
        · exact node_gathers _ ordered live checkedValue
        · rfl
    have second : c₁.heap.Gathered s [] heap := by
      have defines := TypeHeap.gathered_define s first.heap.ordered s name.text kind
      rwa [defined] at defines
    have both : Gathers s (v.returns ++ []) (returned s (.define span name v) c ++ []) c { c₁ with heap } :=
      first.trans ordered live (.none second)
    simpa [Node.returns] using both
  | assign span name v =>
    obtain ⟨running, old, kind, c₁, found, plain, checkedValue, rfl, -⟩ := node_assign_ok.1 checked
    have first := node_gathers v ordered live checkedValue
    have second := TypeHeap.gathered_widen s first.heap.ordered s name.text kind
    have entries : returned s (.assign span name v) c = returned s v c ++ [] := by
      have allowed : target s name c = .ok () c := target_ok.2 ⟨⟨old, found, plain⟩, rfl⟩
      rw [returned_of_not_isReturn running rfl, visitsInside, following_ok allowed, List.append_nil]
      rfl
    rw [entries, Node.returns, ← List.append_nil v.returns]
    exact first.trans ordered live (.none second)
  | lambda span params doc body =>
    obtain ⟨running, checkedLambda⟩ := node_lambda_ok.1 checked
    rw [returned_of_not_isReturn running rfl]
    refine .none (gathered_lambda ordered live checkedLambda ?_)
    intro frame c₁ last c₂ ordered₁ live₁ checkedBody
    exact ⟨_, (node_gathers body ordered₁ live₁ checkedBody).heap⟩
  | quote span inner =>
    obtain ⟨running, -, rfl⟩ := node_quote_ok.1 checked
    rw [returned_of_not_isReturn running rfl]
    exact .none (.refl s ordered)
  | ret span v =>
    obtain ⟨running, c₁, heap, checkedValue, recorded, rfl⟩ := node_ret_ok.1 checked
    have first := node_gathers v ordered live checkedValue
    obtain ⟨inside, second⟩ := TypeHeap.gathered_recordReturn first.heap.ordered recorded
    have entries : returned s (.ret span v) c = returned s v c ++ [(.ret span v, ty)] := by
      have itself : Visit.return? ⟨s, .ret span v, c⟩ = some (.ret span v, ty) := by
        simp [Visit.return?, Visit.ty?, Node.isReturn, checked]
      rw [returned, visits, leave_running running, List.filterMap_append, List.filterMap_cons_some itself, visitsInside]
      rfl
    rw [entries]
    refine first.trans ordered live ⟨rfl, second, ?_⟩
    intro outside
    exact absurd outside inside

theorem sequence_gathers (forms : List Node) {s : Scope} {c c' : Checker} {last ty : Ty}
    (ordered : c.heap.Ordered) (live : s < c.heap.next) (checked : sequence s last forms c = .ok ty c') :
    Gathers s (Node.returnsAll forms) (returnedAll s forms c) c c' := by
  cases forms with
  | nil =>
    obtain ⟨rfl, rfl⟩ := Sequencing.pure_eq_ok.1 checked
    exact .none (.refl s ordered)
  | cons form forms =>
    obtain ⟨kind, c₁, checkedForm, checkedForms⟩ := sequence_cons_ok.1 checked
    have first := node_gathers form ordered live checkedForm
    have second := sequence_gathers forms first.heap.ordered (first.live live) checkedForms
    have entries : returnedAll s (form :: forms) c = returned s form c ++ returnedAll s forms c₁ := by
      rw [returnedAll, visitsAll, following_ok checkedForm, List.filterMap_append]
      rfl
    rw [entries]
    exact first.trans ordered live second

theorem nodes_gather (ns : List Node) {s : Scope} {c c' : Checker} {tys : List Ty}
    (ordered : c.heap.Ordered) (live : s < c.heap.next) (checked : nodes s ns c = .ok tys c') :
    Gathers s (Node.returnsAll ns) (returnedAll s ns c) c c' := by
  cases ns with
  | nil =>
    obtain ⟨rfl, rfl⟩ := Sequencing.pure_eq_ok.1 checked
    exact .none (.refl s ordered)
  | cons n ns =>
    obtain ⟨kind, c₁, kinds, checkedNode, checkedNodes, -⟩ := nodes_cons_ok.1 checked
    have first := node_gathers n ordered live checkedNode
    have second := nodes_gather ns first.heap.ordered (first.live live) checkedNodes
    have entries : returnedAll s (n :: ns) c = returned s n c ++ returnedAll s ns c₁ := by
      rw [returnedAll, visitsAll, following_ok checkedNode, List.filterMap_append]
      rfl
    rw [entries]
    exact first.trans ordered live second

theorem cases_gather (branches : List (Node × Node)) {s : Scope} {c c' : Checker} {tys : List Ty}
    (ordered : c.heap.Ordered) (live : s < c.heap.next) (checked : cases s branches c = .ok tys c') :
    Gathers s (Node.returnsCases branches) (returnedCases s branches c) c c' := by
  match branches with
  | [] =>
    obtain ⟨rfl, rfl⟩ := Sequencing.pure_eq_ok.1 checked
    exact .none (.refl s ordered)
  | (predicate, body) :: rest =>
    obtain ⟨test, c₁, kind, c₂, kinds, checkedTest, accepted, checkedBody, checkedRest, -⟩ := cases_cons_ok.1 checked
    have first := node_gathers predicate ordered live checkedTest
    have second := node_gathers body first.heap.ordered (first.live live) checkedBody
    have third := cases_gather rest second.heap.ordered (second.live (first.live live)) checkedRest
    have entries : returnedCases s ((predicate, body) :: rest) c =
        returned s predicate c ++ (returned s body c₁ ++ returnedCases s rest c₂) := by
      have passed : condition predicate.span test c₁ = .ok () c₁ := condition_ok.2 ⟨accepted, rfl⟩
      rw [returnedCases, visitsCases, following_ok checkedTest, following_ok passed, following_ok checkedBody,
        List.filterMap_append, List.filterMap_append]
      rfl
    rw [entries]
    exact first.trans ordered live (second.trans first.heap.ordered (first.live live) third)

end

/-- Without a declaration the parameters of a lambda are `any`. -/
theorem signature_undeclared {span : Span} {params : List Name} {doc : Option String}
    (undeclared : ∀ text ∈ doc, TypeText.ofDoc text = .ok none) :
    signature span params doc c = .ok (params.map fun _ => .any, none) c := by
  have none : DeclaresNone doc := fun text here => ⟨none, undeclared text here, by simp⟩
  exact signature_ok.2 ⟨rfl, .inl ⟨none, rfl⟩⟩

/-- The frame of a lambda has gathered the `return!` forms of the lambda when its body has
been checked. -/
theorem lambda_returns {self : Option String} {span : Span} {params : List Name} {doc : Option String} {body : Node}
    (ordered : c.heap.Ordered) (live : s < c.heap.next) (undeclared : ∀ text ∈ doc, TypeText.ofDoc text = .ok none)
    (checked : lambda s self span params doc (fun frame => node frame body) c = .ok ty c') :
    ∃ opening c₁ last c₂, openLambda s self span params doc c = .ok opening c₁ ∧
      node opening.frame body c₁ = .ok last c₂ ∧
      (returned opening.frame body c₁).map (·.1) = body.returns ∧
      ty = .function (params.map fun _ => .any) (.join ((returned opening.frame body c₁).map (·.2) ++ [last])) := by
  obtain ⟨opening, c₁, last, c₂, opens, checkedBody, result, -⟩ := lambda_ok.1 checked
  have spec := opensFunction_of_openLambda ordered live opens
  have gathers := node_gathers body spec.gathered.ordered spec.live checkedBody
  obtain ⟨tys, declared, outer, c₃, read, -, -, rfl⟩ := openLambda_ok.1 opens
  cases (signature_undeclared undeclared).symm.trans read
  rw [returns_of_gathered spec.live spec.own spec.empty gathers.heap] at result
  exact ⟨_, c₁, last, c₂, opens, checkedBody, gathers.each, (Option.some.inj result).symm⟩

/-- Functions return what their own `return!` forms and their bodies have. The innermost
function around a scope gathers one type for each `return!` form that the check of a node
meets outside of further lambdas and of quotes, in the order in which these forms end; every
other frame has gathered what it had before. So the result of a lambda that declares none is
the join of these types and the type of its body. -/
theorem returns_gathered (ordered : c.heap.Ordered) (live : s < c.heap.next) :
    (∀ n ty c', node s n c = .ok ty c' →
      (returned s n c).map (·.1) = n.returns ∧ (c.heap.function? s = none → n.returns = []) ∧
      ∀ t frame, c.heap.frame? t = some frame → ∃ frame', c'.heap.frame? t = some frame' ∧
        frame'.function = if c.heap.function? s = some t
          then frame.function.map (· ++ (returned s n c).map (·.2)) else frame.function) ∧
    ∀ self span params doc body ty c', (∀ text ∈ doc, TypeText.ofDoc text = .ok none) →
      lambda s self span params doc (fun frame => node frame body) c = .ok ty c' →
      ∃ opening c₁ last c₂, openLambda s self span params doc c = .ok opening c₁ ∧
        node opening.frame body c₁ = .ok last c₂ ∧
        (returned opening.frame body c₁).map (·.1) = body.returns ∧
        ty = .function (params.map fun _ => .any) (.join ((returned opening.frame body c₁).map (·.2) ++ [last])) := by
  constructor
  · intro n ty c' checked
    have gathers := node_gathers n ordered live checked
    refine ⟨gathers.each, gathers.inside, ?_⟩
    intro t frame found
    obtain ⟨frame', found', -, function⟩ := gathers.heap.kept t frame found
    exact ⟨frame', found', function⟩
  · intro self span params doc body ty c' undeclared checked
    exact lambda_returns ordered live undeclared checked

/-- A function that returns a number or a boolean, or ends without; the lambda in it returns
a string. -/
theorem returns_gathered_nested :
    let place := Span.point .first
    let one := Node.ret place (.atom place (.int "1"))
    let truth := Node.ret place (.atom place (.bool true))
    let inner := Node.lambda place [] none (.ret place (.atom place (.string "a")))
    let body := Node.block place [one, inner, .conditional place [(.atom place (.bool true), truth)] (.unit place)]
    let c := opened .start TypeHeap.globalScope (some [])
    (∃ ty c', node 1 body c = .ok ty c' ∧ (c'.heap.returns 1).map Ty.text = ["Int", "Bool"] ∧
      (returned 1 body c).map (·.1) = [one, truth] ∧
      ∃ frame', c'.heap.frame? 1 = some frame' ∧ frame'.function = some ((returned 1 body c).map (·.2))) ∧
    ∃ ty c', lambda TypeHeap.globalScope none place [] none (fun frame => node frame body) .start = .ok ty c' ∧
      ty.text = "(Callable () (Union Bool Int Unit))" ∧ ∃ tys last, ty = .function [] (.join (tys ++ [last])) := by
  intro place one truth inner body c
  have ordered : c.heap.Ordered := (TypeHeap.sound_start.functionChild (by decide)).ordered
  constructor
  · let visit : Visit := ⟨1, body, c⟩
    have texts : (visit.ending.heap.returns 1).map Ty.text = ["Int", "Bool"] := by decide +kernel
    obtain ⟨ty, checked⟩ := visit.exists_ok (by decide +kernel)
    obtain ⟨each, -, frames⟩ := (returns_gathered ordered (by decide)).1 body ty _ checked
    obtain ⟨frame', found', function⟩ := frames 1 ⟨some 0, some [], []⟩ rfl
    exact ⟨ty, visit.ending, checked, texts, each, frame', found', function⟩
  · let visit : Visit := ⟨TypeHeap.globalScope, .lambda place [] none body, .start⟩
    have text : visit.ty?.map Ty.text = some "(Callable () (Union Bool Int Unit))" := by decide +kernel
    obtain ⟨ty, checked⟩ := visit.exists_ok (by decide +kernel)
    rw [Visit.ty?, checked] at text
    obtain ⟨-, checkedLambda⟩ := node_lambda_ok.1 checked
    have same := (returns_gathered TypeHeap.sound_start.ordered (by decide)).2 none place [] none body ty _
      (by simp) checkedLambda
    obtain ⟨opening, c₁, last, c₂, -, -, -, same⟩ := same
    exact ⟨ty, visit.ending, checkedLambda, Option.some.inj text, _, last, same⟩

end Check

end CheckedLisp
