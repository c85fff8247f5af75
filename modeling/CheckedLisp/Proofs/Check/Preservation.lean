import CheckedLisp.Proofs.Check.Effect

/-! What becomes of the frames of a checker that its owner has come to have by any use of it, when
it checks one more node and whether or not that succeeds. -/
namespace CheckedLisp

namespace TypeClass

theorem declared_signatures (cls : TypeClass) {carrier : Ty} (normal : carrier.Declared) :
    ∀ entry ∈ cls.signatures carrier, entry.2.Declared := by
  intro entry inside
  cases cls with
  | num =>
    obtain ⟨_, _, rfl⟩ := List.mem_map.1 inside
    exact TypeText.declared_function (by simp [normal]) normal
  | ord =>
    obtain ⟨_, _, rfl⟩ := List.mem_map.1 inside
    exact TypeText.declared_function (by simp [normal]) .bool
  | seq =>
    rw [List.mem_singleton.1 inside]
    exact TypeText.declared_function (by simp [normal]) .int

theorem sound_defineAll {h : TypeHeap} (sound : h.Sound) (s : Scope) {entries : List (String × Ty)}
    (normal : ∀ entry ∈ entries, entry.2.Declared) : (defineAll h s entries).2.Sound := by
  induction entries generalizing h with
  | nil => exact sound
  | cons entry entries ih =>
    obtain ⟨name, ty⟩ := entry
    obtain ⟨first, rest⟩ := List.forall_mem_cons.1 normal
    have defined := sound.define s name first
    simp only [defineAll]
    split
    · next done =>
      rw [done] at defined
      exact ih defined rest
    · next refused =>
      rw [refused] at defined
      exact defined

end TypeClass

namespace TypeHeap

theorem declared_documented : ∀ entry ∈ documented, entry.2.Declared := by
  simp only [documented, List.forall_mem_cons]
  simp [TypeText.declared_function, Ty.NormalUnder.any, Ty.NormalUnder.bool, Ty.NormalUnder.int,
    Ty.NormalUnder.unit, Ty.NormalUnder.variadic]

theorem declared_constants : ∀ entry ∈ constants, entry.2.Declared := by
  simp [constants, Ty.NormalUnder.bool]

theorem sound_documented : Sound ⟨#[⟨none, none, constants ++ documented⟩]⟩ := by
  constructor
  · intro s frame parent found above
    cases s with
    | zero =>
      cases found
      cases above
    | succ s => cases found
  · intro s frame found
    cases s with
    | zero =>
      cases found
      exact ⟨List.forall_mem_append.2 ⟨declared_constants, declared_documented⟩, by simp⟩
    | succ s => cases found

theorem sound_instantiateAll (pending : List (TypeClass × Ty)) {h : TypeHeap} (sound : h.Sound)
    (normal : ∀ each ∈ pending, each.2.Declared) :
    (pending.foldl (fun h each => (each.1.instantiate h 0 each.2).2) h).Sound := by
  induction pending generalizing h with
  | nil => exact sound
  | cons each pending ih =>
    obtain ⟨normalFirst, normalRest⟩ := List.forall_mem_cons.1 normal
    exact ih (TypeClass.sound_defineAll sound 0 (each.1.declared_signatures normalFirst)) normalRest

theorem sound_start : start.Sound := by
  apply sound_instantiateAll instances sound_documented
  intro each inside
  simp only [instances, List.mem_cons, List.not_mem_nil, or_false] at inside
  rcases inside with rfl | rfl | rfl | rfl | rfl | rfl
  · exact .int
  · exact .float
  · exact .int
  · exact .float
  · exact .string
  · exact .string

end TypeHeap

/-- The checkers that an owner can come to have. It may check nodes, open frames, define,
widen and record types in normal form in any scope there is, and cancel. -/
inductive Checker.Reachable : Checker → Prop
  | start : Reachable .start
  | check {c : Checker} (s : Scope) (n : Node) (reachable : Reachable c) (live : s < c.heap.next) :
    Reachable (Check.Ending.checker (Check.node s n c))
  | child {c : Checker} (s : Scope) (reachable : Reachable c) (live : s < c.heap.next) :
    Reachable { c with heap := c.heap.add (some s) none }
  | functionChild {c : Checker} (s : Scope) (reachable : Reachable c) (live : s < c.heap.next) :
    Reachable { c with heap := c.heap.add (some s) (some []) }
  | define {c : Checker} (s : Scope) (name : String) (ty : Ty) (reachable : Reachable c)
    (normal : ty.Declared) : Reachable { c with heap := (c.heap.define s name ty).2 }
  | widen {c : Checker} (s : Scope) (name : String) (ty : Ty) (reachable : Reachable c)
    (normal : ty.Declared) : Reachable { c with heap := (c.heap.widen s name ty).2 }
  | recordReturn {c : Checker} (s : Scope) (ty : Ty) (reachable : Reachable c) (normal : ty.Declared) :
    Reachable { c with heap := (c.heap.recordReturn s ty).2 }
  | clearReturns {c : Checker} (s : Scope) (reachable : Reachable c) :
    Reachable { c with heap := c.heap.clearReturns s }
  | cancel {c : Checker} (cancelled : Bool) (reachable : Reachable c) : Reachable { c with cancelled }

theorem Checker.Reachable.sound {c : Checker} (reachable : c.Reachable) : c.heap.Sound := by
  induction reachable with
  | start => exact TypeHeap.sound_start
  | check s n _ live sound => exact (Check.node_ended n sound live).sound
  | child s _ live sound => exact sound.child live
  | functionChild s _ live sound => exact sound.functionChild live
  | define s name ty _ normal sound => exact sound.define s name normal
  | widen s name ty _ normal sound => exact sound.widen s name normal
  | recordReturn s ty _ normal sound => exact sound.recordReturn s normal
  | clearReturns s _ sound => exact sound.clearReturns s
  | cancel _ _ sound => exact sound

/-- What a check leaves of a frame that was there before; `own` says that it is the frame of
the scope of the check. -/
structure TypeFrame.Preserved (own : Prop) (f f' : TypeFrame) : Prop where
  parent : f'.parent = f.parent
  function : f'.function.isSome = f.function.isSome
  names : f.names <:+ f'.names
  foreignNames : ¬ own → f'.names = f.names
  overloaded : ∀ name newest older, f.lookup name = some (.callable newest older) →
    ∃ newest' older', f'.lookup name = some (.callable newest' older') ∧
      newest :: older <:+ newest' :: older'
  foreignFunctions : ¬ own → ∀ name newest older, f.lookup name = some (.callable newest older) →
    f'.lookup name = some (.callable newest older)
  widened : ∀ name ty, f.lookup name = some ty → ty.isCallable = false →
    ∃ ty', f'.lookup name = some ty' ∧ Ty.join [ty, ty'] = ty'

theorem TypeFrame.Evolved.preserved {own : Prop} {new : String → Prop} {f f' : TypeFrame}
    (evolved : TypeFrame.Evolved own new f f') (sound : TypeFrame.Sound f') : f.Preserved own f' where
  parent := evolved.parent
  function := evolved.function
  names := by
    obtain ⟨added, names, _⟩ := evolved.names
    exact ⟨added, names.symm⟩
  foreignNames elsewhere := by
    obtain ⟨added, names, each⟩ := evolved.names
    cases added with
    | nil => exact names
    | cons name added => exact absurd (each name List.mem_cons_self).1 elsewhere
  overloaded name newest older found := by
    obtain ⟨ty', found', evolvedTy⟩ := evolved.types name _ found
    obtain ⟨newest', older', rfl, front⟩ := evolvedTy.overloaded newest older rfl
    exact ⟨newest', older', found', front⟩
  foreignFunctions elsewhere name newest older found := by
    obtain ⟨ty', found', evolvedTy⟩ := evolved.types name _ found
    rw [found', evolvedTy.foreign rfl fun allowed => elsewhere allowed.1]
  widened name ty found plain := by
    obtain ⟨ty', found', evolvedTy⟩ := evolved.types name ty found
    exact ⟨ty', found', Ty.join_eq_of_below (sound.lookup found') (evolvedTy.widened plain)⟩

/-- The signatures of a function, the newest first. -/
def Ty.signatures : Ty → List (Signature Ty)
  | .callable newest older => newest :: older
  | _ => []

theorem Ty.signatures_of_data {ty : Ty} (plain : ty.isCallable = false) : ty.signatures = [] := by
  cases ty with
  | callable => cases plain
  | _ => rfl

namespace TypeHeap

variable {h : TypeHeap} {s : Scope} {name : String}

/-- The signatures that the frame of `s` itself holds for a name. -/
def signatures (h : TypeHeap) (s : Scope) (name : String) : List (Signature Ty) :=
  ((h.frame? s).bind (·.lookup name)).elim [] Ty.signatures

/-- A definition that is accepted puts its signature in front. -/
theorem lookup_define (live : s < h.next) {final : Signature Ty} {h' : TypeHeap}
    (done : h.define s name (.callable final []) = (true, h')) :
    (h'.frame? s).bind (·.lookup name) = some (.callable final (h.signatures s name)) := by
  obtain ⟨frame, found⟩ := Heap.exists_frame? live
  rcases define_cases h s name (.callable final []) with
    ⟨free, bound⟩ | ⟨newest, older, newer, others, held, same, bound⟩ | refused
  · rw [bound] at done
    cases done
    rw [signatures, free]
    simp [Heap.frame?_modify, found, Frame.lookup, Frame.bind]
  · rw [bound] at done
    cases done
    cases same
    rw [signatures, held]
    rw [found, Option.bind_some, Frame.lookup] at held
    simp [Heap.frame?_modify, found, Frame.lookup, Frame.rebind, Frame.lookup_replace, held, Ty.signatures]
  · rw [refused] at done
    cases done

/-- While names are defined in a younger frame, a frame keeps its names and its functions. -/
theorem Evolved.signatures {h' : TypeHeap} {t : Scope} {new : String → Prop} (evolved : Evolved t new h h')
    (live : s < h.next) (other : s ≠ t) (name : String) : h'.signatures s name = h.signatures s name := by
  obtain ⟨frame, found⟩ := Heap.exists_frame? live
  obtain ⟨frame', found', evolvedFrame⟩ := evolved.kept s frame found
  simp only [TypeHeap.signatures, found, found', Option.bind_some]
  cases held : frame.lookup name with
  | none =>
    obtain ⟨added, names, each⟩ := evolvedFrame.names
    have free : frame'.lookup name = none := by
      rw [← Option.not_isSome_iff_eq_none, ← Frame.mem_names_iff, names, List.mem_append, not_or]
      constructor
      · intro inside
        exact other (each name inside).1
      · rw [Frame.mem_names_iff, held]
        exact Bool.false_ne_true
    rw [free]
  | some ty =>
    obtain ⟨ty', held', evolvedTy⟩ := evolvedFrame.types name ty held
    rw [held']
    cases callable : ty.isCallable with
    | true => rw [evolvedTy.foreign callable fun allowed => other allowed.1]
    | false =>
      have plain := evolvedTy.data callable
      simp only [Option.elim_some, Ty.signatures_of_data callable, Ty.signatures_of_data plain]

end TypeHeap

namespace Check

open Sequencing

variable {c : Checker} {s : Scope}

/-- The type of a lambda is a single signature. -/
theorem exists_of_lambda {self : Option String} {span : Span} {params : List Name} {doc : Option String}
    {body : Scope → Action Ty} {ty : Ty} {c' : Checker}
    (checked : lambda s self span params doc body c = .ok ty c') : ∃ final, ty = .callable final [] := by
  simp only [lambda_eq, closeLambda, bind_eq_ok] at checked
  obtain ⟨opening, _, _, last, _, _, returned, c₁, _, closed⟩ := checked
  cases declared : opening.declared with
  | none =>
    rw [declared] at closed
    obtain ⟨rfl, rfl⟩ := pure_eq_ok.1 closed
    exact ⟨_, rfl⟩
  | some ret =>
    rw [declared] at closed
    dsimp only at closed
    split at closed
    · obtain ⟨rfl, rfl⟩ := pure_eq_ok.1 closed
      exact ⟨_, rfl⟩
    · cases closed

/-- How the definition of a lambda ends for all scopes that were there before. If it fails,
they see no other names; if it succeeds, the name has the signature that was found by
checking the lambda, in front of those that it had. -/
def DefinesChecked (s : Scope) (name : String) (checked : Ending Ty) (c : Checker) : Ending Ty → Prop
  | .error _ c' => ∀ t < c.heap.next, ∀ x, c'.heap.Sees t x ↔ c.heap.Sees t x
  | .ok _ c' => ∃ final c₁, checked = .ok (.callable final []) c₁ ∧
      (c'.heap.frame? s).bind (·.lookup name) = some (.callable final (c.heap.signatures s name))

/-- Names that are defined in younger frames come into no older scope's sight. -/
theorem sees_iff_of_evolved {c' : Checker} (sound : c.heap.Sound) (sound' : c'.heap.Sound)
    (evolved : c.heap.Evolved c.heap.next (fun _ => False) c'.heap) {t : Scope} (live : t < c.heap.next) (x : String) :
    c'.heap.Sees t x ↔ c.heap.Sees t x := by
  constructor
  · intro seen
    rcases evolved.sees sound.ordered sound'.ordered live seen with old | new
    · exact old
    · exact absurd new not_false
  · exact evolved.stillSees sound.ordered sound'.ordered live

theorem define_lambda_checked (sound : c.heap.Sound) (live : s < c.heap.next) (span : Span) (name : Name)
    (lambdaSpan : Span) (params : List Name) (doc : Option String) (body : Node) :
    DefinesChecked s name.text (value s name.text (.lambda lambdaSpan params doc body) c) c
      (node s (.define span name (.lambda lambdaSpan params doc body)) c) := by
  rw [node_define, bind_apply]
  cases ticked : tick span c with
  | error failure c' =>
    unfold tick at ticked
    split at ticked
    · cases ticked
      exact fun _ _ _ => .rfl
    · cases ticked
  | ok _ c' =>
    cases tick_eq_ok ticked
    have checked : Ended c.heap.next (fun _ => False) c (value s name.text (.lambda lambdaSpan params doc body) c) :=
      defined_lambda_ended sound live name.text lambdaSpan params doc body
    dsimp only
    rw [bind_apply]
    cases run : value s name.text (.lambda lambdaSpan params doc body) c with
    | error failure c₁ =>
      rw [run] at checked
      intro t old x
      exact sees_iff_of_evolved sound checked.sound checked.evolved old x
    | ok ty c₁ =>
      rw [run] at checked
      obtain ⟨final, rfl⟩ := exists_of_lambda run
      have live₁ := Nat.lt_of_lt_of_le live checked.evolved.next
      dsimp only
      rw [bind_eq]
      split
      · next heap done =>
        have found := TypeHeap.lookup_define live₁ done
        have same := checked.evolved.signatures live (Nat.ne_of_lt live) name.text
        rw [same] at found
        exact ⟨final, c₁, rfl, found⟩
      · next heap refused =>
        have unchanged : heap = c₁.heap := by
          rcases TypeHeap.define_cases c₁.heap s name.text (.callable final []) with
            ⟨_, bound⟩ | ⟨_, _, _, _, _, _, bound⟩ | same
          · cases bound.symm.trans refused
          · cases bound.symm.trans refused
          · cases same.symm.trans refused
            rfl
        rw [unchanged]
        intro t old x
        exact sees_iff_of_evolved sound checked.sound checked.evolved old x

/-- Checking only widens and overloads. However the check of a node in `s` ends, every frame
that was there keeps its place, its kind, its names and its functions; new names and new
overloads stand in `s` alone, what is no function is only widened, and no frame that the
check opened is seen from outside. The name that a lambda has for itself while it is
defined is gone when its definition has ended. -/
theorem node_preserves (reachable : c.Reachable) (live : s < c.heap.next) (n : Node) :
    (∀ t frame, c.heap.frame? t = some frame →
      ∃ frame', (Ending.checker (node s n c)).heap.frame? t = some frame' ∧
        TypeFrame.Preserved (t = s) frame frame') ∧
    (∀ t < c.heap.next, (Ending.checker (node s n c)).heap.chain t = c.heap.chain t) ∧
    ∀ span name lambdaSpan params doc body, n = .define span name (.lambda lambdaSpan params doc body) →
      DefinesChecked s name.text (value s name.text (.lambda lambdaSpan params doc body) c) c (node s n c) := by
  have sound := reachable.sound
  have ended := node_ended n sound live
  refine ⟨?_, ?_, ?_⟩
  · intro t frame found
    obtain ⟨frame', found', evolved⟩ := ended.evolved.kept t frame found
    exact ⟨frame', found', evolved.preserved (ended.sound.frames t frame' found')⟩
  · intro t old
    exact ended.evolved.keeps.chain sound.ordered ended.sound.ordered old
  · rintro span name lambdaSpan params doc body rfl
    exact define_lambda_checked sound live span name lambdaSpan params doc body

/-- A function that calls itself, defined among the global names. -/
theorem node_preserves_recursive :
    let place := Span.point .first
    let function := Node.lambda place [⟨"x", place⟩] none
      (.call place (.atom place (.symbol "f")) [.atom place (.symbol "x")])
    let n := Node.define place ⟨"f", place⟩ function
    let c' := Ending.checker (node TypeHeap.globalScope n .start)
    ((c'.heap.frame? TypeHeap.globalScope).bind (·.lookup "f")).isSome = true ∧
      (∀ t frame, Checker.start.heap.frame? t = some frame →
        ∃ frame', c'.heap.frame? t = some frame' ∧
          TypeFrame.Preserved (t = TypeHeap.globalScope) frame frame') ∧
      DefinesChecked TypeHeap.globalScope "f" (value TypeHeap.globalScope "f" function .start) .start
        (node TypeHeap.globalScope n .start) := by
  intro place function n c'
  have preserved := node_preserves .start (s := TypeHeap.globalScope) (by decide) n
  exact ⟨by decide, preserved.1, preserved.2.2 place ⟨"f", place⟩ place [⟨"x", place⟩] none _ rfl⟩

end Check

end CheckedLisp
