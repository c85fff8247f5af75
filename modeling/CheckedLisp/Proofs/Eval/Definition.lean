import CheckedLisp.Proofs.Eval.Confinement
import CheckedLisp.Proofs.Node.Binding

/-! A node that surely binds a name has bound it when its evaluation ends with a value. A node that
control returns from on every way has no such end. -/
namespace CheckedLisp

namespace Heap

variable {α ρ : Type} {h : Heap α ρ} {s : Scope}

theorem mem_chain_self (ordered : h.Ordered) (live : s < h.next) : s ∈ h.chain s :=
  List.mem_of_head? (ordered.grounded live).head

/-- After a definition, accepted or not, the name is in sight. -/
theorem sees_define (ordered : h.Ordered) (live : s < h.next) (name : String) (value : α) :
    (h.define s name value).2.Sees s name := by
  obtain ⟨frame, found⟩ := exists_frame? live
  have confined := confined_define h s name value
  have onChain : s ∈ (h.define s name value).2.chain s := by
    rw [confined.keeps.chain ordered (confined.ordered ordered) live]
    exact mem_chain_self ordered live
  refine ⟨s, onChain, ?_⟩
  unfold define
  split
  · next bound => exact (bindsIn_iff h s name).1 bound
  · exact ⟨frame.bind name value, by simp [frame?_modify, found], List.mem_cons_self⟩

end Heap

namespace Definition

open Budget (Ending)
open Confinement
open Eval
open Sequencing

variable {s : Scope} {m m' : Machine} {name : Option String}

/-- The name is seen; where there is none, nothing is. -/
def Seen (name : Option String) (h : Heap Value Unit) (s : Scope) : Prop := ∃ x ∈ name, h.Sees s x

theorem Seen.later {h h' : Heap Value Unit} (seen : Seen name h s) (confined : h.Confined s h')
    (ordered : h.Ordered) (live : s < h.next) : Seen name h' s := by
  obtain ⟨x, isName, seen⟩ := seen
  exact ⟨x, isName, confined.sees ordered live seen⟩

/-- What is seen in the middle of a computation is seen when it ends. -/
theorem Seen.ended {α : Type} [Scoped α] {x : Run α} {a : α} (seen : Seen name m.heap s)
    (ended : Ended s m (x m)) (done : x m = .ok a m') (sound : m.heap.WellScoped) (live : s < m.heap.next) :
    Seen name m'.heap s := by
  rw [done] at ended
  exact seen.later ended.confined sound.ordered live

/-- Evaluation that binds what is surely bound. -/
def Defining (s : Scope) (eval : Node → Run Value) : Prop :=
  ∀ n m v m', m.heap.WellScoped → s < m.heap.next → eval n m = .ok v m' →
    ∀ name, n.surelyBinds name = true → Seen name m'.heap s

theorem truth_eq_ok {span : Span} {value : Value} {holds : Bool} (done : truth span value m = .ok holds m') :
    m' = m := by
  cases value with
  | bool b =>
    cases done
    rfl
  | _ => cases done

theorem heap_of_define {t : Scope} {x : String} {value : Value} {accepted : Bool}
    (done : Eval.define t x value m = .ok accepted m') : m'.heap = (m.heap.define t x value).2 := by
  rw [Eval.define, modifyGet_apply] at done
  injection done with _ same
  rw [← same]

section Parts

variable {eval : Node → Run Value} (confining : Confining s eval) (defining : Defining s eval)

include confining defining

theorem seen_sequence (forms : List Node) {last v : Value} (sound : m.heap.WellScoped)
    (live : s < m.heap.next) (done : Eval.sequence eval last forms m = .ok v m')
    (surely : Node.surelyBindsAny name forms = true) : Seen name m'.heap s := by
  induction forms generalizing last m with
  | nil => cases surely
  | cons form forms ih =>
    simp only [Eval.sequence, bind_eq_ok] at done
    obtain ⟨value, m₁, here, later⟩ := done
    obtain ⟨sound₁, live₁, within⟩ := (confining form m sound live).next here live
    simp only [Node.surelyBindsAny, Bool.or_eq_true] at surely
    rcases surely with first | rest
    · have seen := defining form m value m₁ sound live here name first
      exact seen.ended (ended_sequence confining sound₁ live₁ forms within) later sound₁ live₁
    · exact ih sound₁ live₁ later rest

theorem seen_collect (forms : List Node) {values : List Value} (sound : m.heap.WellScoped)
    (live : s < m.heap.next) (done : collect eval forms m = .ok values m')
    (surely : Node.surelyBindsAny name forms = true) : Seen name m'.heap s := by
  induction forms generalizing values m with
  | nil => cases surely
  | cons form forms ih =>
    simp only [collect, bind_eq_ok] at done
    obtain ⟨value, m₁, here, others, m₂, later, rest⟩ := done
    obtain ⟨_, rfl⟩ := pure_eq_ok.1 rest
    obtain ⟨sound₁, live₁, _⟩ := (confining form m sound live).next here live
    simp only [Node.surelyBindsAny, Bool.or_eq_true] at surely
    rcases surely with first | rest
    · have seen := defining form m value m₁ sound live here name first
      exact seen.ended (ended_collect confining sound₁ live₁ forms) later sound₁ live₁
    · exact ih sound₁ live₁ later rest

theorem seen_choose (branches : List (Node × Node)) {otherwise : Node} {v : Value} (sound : m.heap.WellScoped)
    (live : s < m.heap.next) (done : choose eval otherwise branches m = .ok v m')
    (surely : Node.surelyBindsCases name (otherwise.surelyBinds name) branches = true) :
    Seen name m'.heap s := by
  induction branches generalizing m with
  | nil => exact defining otherwise m v m' sound live done name surely
  | cons first rest ih =>
    obtain ⟨predicate, body⟩ := first
    simp only [choose, bind_eq_ok] at done
    obtain ⟨value, m₁, tested, holds, m₂, judged, taken⟩ := done
    cases truth_eq_ok judged
    obtain ⟨sound₁, live₁, _⟩ := (confining predicate m sound live).next tested live
    have seenTest := defining predicate m value m₁ sound live tested name
    simp only [Node.surelyBindsCases, Bool.or_eq_true, Bool.and_eq_true] at surely
    cases holds with
    | true =>
      rcases surely with test | ⟨inBody, _⟩
      · exact (seenTest test).ended (confining body m₁ sound₁ live₁) taken sound₁ live₁
      · exact defining body m₁ v m' sound₁ live₁ taken name inBody
    | false =>
      rcases surely with test | ⟨_, inRest⟩
      · exact (seenTest test).ended (ended_choose confining sound₁ live₁ otherwise rest) taken sound₁ live₁
      · exact ih sound₁ live₁ taken inRest

/-- The predicate of a loop is evaluated at least once. -/
theorem seen_turns (predicate body : Node) (count : Nat) {v : Value} (sound : m.heap.WellScoped)
    (live : s < m.heap.next) (done : turns eval predicate body count m = .ok v m')
    (surely : predicate.surelyBinds name = true) : Seen name m'.heap s := by
  induction count generalizing m with
  | zero => cases done
  | succ count ih =>
    simp only [turns, bind_eq_ok] at done
    obtain ⟨value, m₁, tested, holds, m₂, judged, taken⟩ := done
    cases truth_eq_ok judged
    obtain ⟨sound₁, live₁, _⟩ := (confining predicate m sound live).next tested live
    cases holds with
    | true =>
      simp only [if_true, bind_eq_ok] at taken
      obtain ⟨_, m₃, turned, again⟩ := taken
      obtain ⟨sound₃, live₃, _⟩ := (confining body m₁ sound₁ live₁).next turned live₁
      exact ih sound₃ live₃ again
    | false =>
      obtain ⟨_, rfl⟩ := pure_eq_ok.1 taken
      exact defining predicate m value m₁ sound live tested name surely

end Parts

section Evaluator

variable {eval : Scope → Node → Run Value} (confining : ∀ s, Confining s (eval s))
  (defining : ∀ s, Defining s (eval s))

include confining defining

/-- The names of a block are its own, so all that matters of it is whether it comes to its end. -/
theorem seen_step (fuel : Nat) (n : Node) {v : Value} (sound : m.heap.WellScoped) (live : s < m.heap.next)
    (done : step eval fuel s n m = .ok v m') (surely : n.surelyBinds name = true) : Seen name m'.heap s := by
  cases n with
  | unit | atom | lambda | quote => cases surely
  | block span forms =>
    obtain ⟨x, none, _⟩ := seen_sequence (confining m.heap.next) (defining m.heap.next) forms
      (sound.child live none) (Heap.lt_next_add m.heap (some s) none) done surely
    cases none
  | call span callee args =>
    simp only [step, bind_eq_ok] at done
    obtain ⟨function, m₁, evaluated, values, m₂, collected, applied⟩ := done
    obtain ⟨sound₁, live₁, known⟩ := (confining s callee m sound live).next evaluated live
    have ended := ended_collect (confining s) sound₁ live₁ args
    obtain ⟨sound₂, live₂, within⟩ := ended.next collected live₁
    rw [collected] at ended
    have known₂ : function.Within m₂.heap.next := Value.Within.mono ended.confined.next known
    have seen₂ : Seen name m₂.heap s := by
      simp only [Node.surelyBinds, Bool.or_eq_true] at surely
      rcases surely with first | rest
      · have seen := defining s callee m function m₁ sound live evaluated name first
        exact seen.later ended.confined sound₁.ordered live₁
      · exact seen_collect (confining s) (defining s) args sound₁ live₁ collected rest
    exact seen₂.ended (ended_apply confining sound₂ live₂ span within known₂) applied sound₂ live₂
  | conditional span branches otherwise =>
    exact seen_choose (confining s) (defining s) branches sound live done surely
  | loop span predicate body =>
    exact seen_turns (confining s) (defining s) predicate body fuel sound live done surely
  | define span defined value =>
    simp only [step, bind_eq_ok] at done
    obtain ⟨held, m₁, evaluated, accepted, m₂, bound, rest⟩ := done
    obtain ⟨sound₁, live₁, within⟩ := (confining s value m sound live).next evaluated live
    have ended : Ended s m₁ (Eval.define s defined.text held m₁) := ended_define sound₁ defined.text within
    cases accepted with
    | false => cases rest
    | true =>
      obtain ⟨_, rfl⟩ := pure_eq_ok.1 rest
      simp only [Node.surelyBinds, Bool.or_eq_true, beq_iff_eq] at surely
      rcases surely with here | inside
      · have seen := Heap.sees_define sound₁.ordered live₁ defined.text held
        rw [← heap_of_define bound] at seen
        exact ⟨defined.text, here.symm, seen⟩
      · have seen := defining s value m held m₁ sound live evaluated name inside
        exact seen.ended ended bound sound₁ live₁
  | assign span target value =>
    simp only [step, bind_eq_ok] at done
    obtain ⟨held, m₁, evaluated, accepted, m₂, bound, rest⟩ := done
    obtain ⟨sound₁, live₁, within⟩ := (confining s value m sound live).next evaluated live
    have ended : Ended s m₁ (Eval.assign s target.text held m₁) := ended_assign sound₁ s target.text within
    cases accepted with
    | false => cases rest
    | true =>
      obtain ⟨_, rfl⟩ := pure_eq_ok.1 rest
      have seen := defining s value m held m₁ sound live evaluated name surely
      exact seen.ended ended bound sound₁ live₁
  | ret span value =>
    change (if m.heap.inFunction s then eval s value >>= fun v => throw (.ret v)
      else fail span .returnOutside : Run Value) m = _ at done
    split at done
    · obtain ⟨_, _, _, returned⟩ := bind_eq_ok.1 done
      cases returned
    · cases done

end Evaluator

theorem defining_node (fuel : Nat) (s : Scope) : Defining s (node fuel s) := by
  induction fuel generalizing s with
  | zero =>
    intro n m v m' _ _ done
    cases done
  | succ fuel ih =>
    intro n m v m' sound live done name surely
    simp only [node, bind_eq_ok] at done
    obtain ⟨_, m₁, ticked, stepped⟩ := done
    obtain ⟨sound₁, live₁, _⟩ := (ended_tick sound n.span).next ticked live
    exact seen_step (confining_node fuel) ih fuel n sound₁ live₁ stepped surely

end Definition

end CheckedLisp
