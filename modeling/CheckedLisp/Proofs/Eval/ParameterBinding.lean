import CheckedLisp.Proofs.Eval.Course
import CheckedLisp.Proofs.Node.Enclosure
import CheckedLisp.Proofs.Scope.Acceptance

/-! A call opens a frame and defines its parameters there, and does not ask whether that worked. It
always does: the parameters of every lambda that is read differ, and every closure that there can be
was made from such a lambda, also one in quoted code. -/
namespace CheckedLisp

theorem Node.Distinct.child {n inner : Node} (distinct : n.Distinct) (below : inner ∈ n.children) :
    inner.Distinct := by
  intro span params doc body descends
  have first : n.Descends inner := Node.Descends.here.child below
  exact distinct span params doc body (first.trans descends)

/-- The parameters of every closure in the value differ, and those of all lambdas in its code. -/
def Value.Distinct : Value → Prop
  | lambda closure => (closure.params.map (·.text)).Nodup ∧ closure.body.Distinct
  | quoted node => node.Distinct
  | pair car cdr => car.Distinct ∧ cdr.Distinct
  | _ => True

namespace Eval

open Sequencing

def distinct : Invariant where
  values := Value.Distinct
  code := Node.Distinct
  hereditary := {
    unit := trivial
    bool := fun _ => trivial
    int := fun _ => trivial
    float := fun _ _ => trivial
    string := fun _ => trivial
    pair := fun _ _ => .rfl }
  builtin _ := trivial
  quoted _ := .rfl
  close span params doc body _ _ code :=
    ⟨code span params doc body .here, code.child List.mem_cons_self⟩
  body _ closure := closure.2
  child _ code _ := code.child

/-- What the definitions answer that bind parameters to arguments. -/
def bindAnswers (frame : Scope) : List Name → List Value → Machine → List Bool
  | param :: params, arg :: args, m =>
    following (define frame param.text arg) m fun done m => done :: bindAnswers frame params args m
  | _, _, _ => []

theorem bindAll_eq (frame : Scope) (params : List Name) (args : List Value) (m : Machine) :
    let bound := Heap.defineEach (fun h => h.define frame) ((params.map (·.text)).zip args) m.heap
    bindAnswers frame params args m = bound.1 ∧ bindAll frame params args m = .ok () { m with heap := bound.2 } := by
  induction params generalizing args m with
  | nil => exact ⟨rfl, rfl⟩
  | cons param params ih =>
    cases args with
    | nil => exact ⟨rfl, rfl⟩
    | cons arg args =>
      obtain ⟨answers, done⟩ := ih args { m with heap := (m.heap.define frame param.text arg).2 }
      exact ⟨congrArg ((m.heap.define frame param.text arg).1 :: ·) answers, done⟩

/-- A call of a closure goes on to the body when all parameters were accepted and the new
frame finds each of them bound to its argument. -/
def Moment.BindsAll (moment : Moment) (closure : Closure) (args : List Value) : Prop :=
  let frame := moment.machine.heap.next
  let opened : Machine :=
    { moment.machine with heap := moment.machine.heap.add (some closure.scope) (some ()) }
  bindAnswers frame closure.params args opened = List.replicate args.length true ∧
    ∃ m, bindAll frame closure.params args opened = .ok () m ∧
      moment.ending = catchReturn (node moment.fuel frame closure.body) m ∧
      ∀ (i : Nat) (param : Name) (arg : Value), closure.params[i]? = some param → args[i]? = some arg →
        m.heap.lookup frame param.text = some arg

theorem Moment.Kept.bindsAll {moment : Moment} (kept : moment.Kept distinct) {scope : Scope} {span : Span}
    {closure : Closure} {args : List Value} (applies : moment.task = .apply scope span (.lambda closure) args)
    (count : closure.params.length = args.length) : moment.BindsAll closure args := by
  obtain ⟨fuel, task, m⟩ := moment
  have isDistinct := kept.task
  cases applies
  obtain ⟨⟨differ, _⟩, _⟩ := isDistinct
  let entries := (closure.params.map (·.text)).zip args
  let opened : Machine := { m with heap := m.heap.add (some closure.scope) (some ()) }
  have names : entries.map (·.1) = closure.params.map (·.text) :=
    List.map_fst_zip (by simp [count])
  have size : entries.length = args.length := by simp [entries, count]
  obtain ⟨accepted, found⟩ := Heap.accepted_fresh (Heap.bindsFree_define m.heap.next) (some closure.scope)
    (some ()) (names ▸ differ)
  obtain ⟨answers, bound⟩ := bindAll_eq m.heap.next closure.params args opened
  refine ⟨?_, _, bound, ?_, ?_⟩
  · rw [answers, accepted, size]
  · have entered : enter closure.scope (some ()) m = .ok m.heap.next opened := rfl
    simp only [Moment.ending, Eval.apply, if_pos count, bind_apply, entered, bound]
  · intro i param arg isParam isArg
    have member : (param.text, arg) ∈ entries := by
      refine List.mem_of_getElem? (i := i) ?_
      simp [entries, List.getElem?_zip_eq_some, isParam, isArg]
    exact found (param.text, arg) member

end Eval

end CheckedLisp
