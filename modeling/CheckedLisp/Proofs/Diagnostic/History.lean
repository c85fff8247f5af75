import CheckedLisp.Proofs.Node.Complaints

/-! A collector comes about by taking single errors and whole collectors, which have their own
histories. However these are nested, it keeps the first twenty of all the errors in the order in
which they came, and counts every one of them, also those that another collector had dropped before.
-/
namespace CheckedLisp

namespace Collector

/-- How a collector came about. -/
inductive History (α : Type) where
  | start
  | push (before : History α) (error : α)
  | extend (before other : History α)

namespace History

variable {α : Type}

def collector : History α → Collector α
  | start => .empty
  | push before error => before.collector.push error
  | extend before other => before.collector.extend other.collector

/-- All errors in order. Another collector brings all of its own, kept or not. -/
def errors : History α → List α
  | start => []
  | push before error => before.errors ++ [error]
  | extend before other => before.errors ++ other.errors

theorem collector_eq_ofList (h : History α) : h.collector = .ofList h.errors := by
  induction h with
  | start => rfl
  | push before error ih => rw [collector, ih, push_ofList, errors]
  | extend before other ih ih' => rw [collector, ih, ih', extend_ofList, errors]

theorem isFull_iff (h : History α) : h.collector.isFull = true ↔ 20 ≤ h.errors.length := by
  rw [collector_eq_ofList, isFull, decide_eq_true_iff]
  rfl

theorem extend_assoc (a b c : History α) :
    (a.collector.extend b.collector).extend c.collector = a.collector.extend (b.collector.extend c.collector) := by
  simp only [collector_eq_ofList, extend_ofList, List.append_assoc]

theorem hasErrors_iff (h : History α) : h.collector.hasErrors = true ↔ h.errors ≠ [] := by
  rw [collector_eq_ofList, hasErrors, decide_eq_true_iff]
  exact List.length_pos_iff

end History

/-- Some history leads to the collector. -/
def Recorded {α : Type} (c : Collector α) : Prop := ∃ h : History α, h.collector = c

theorem Recorded.empty {α : Type} : (empty : Collector α).Recorded := ⟨.start, rfl⟩

theorem Recorded.push {α : Type} {c : Collector α} (known : c.Recorded) (error : α) : (c.push error).Recorded := by
  obtain ⟨h, rfl⟩ := known
  exact ⟨h.push error, rfl⟩

end Collector

open Collector (History)

namespace Source

theorem recorded_tokens (src : Source) : src.tokens.2.Recorded :=
  Scan.errors_run (P := Collector.Recorded) (fun _ _ _ known => known.push _) .empty _ _ _

theorem recorded_nodesOfTokens (src : Source) (tokens : List Token) : (src.nodesOfTokens tokens).2.Recorded :=
  errors_nodesOfTrees (P := Collector.Recorded) (fun _ _ _ known => known.push _) _ .empty

/-- A program is read when neither its tokens nor its forms have errors; otherwise the errors of
the tokens come first. -/
theorem parse_of_histories {src : Source} {scanned formed : History Report}
    (isScanned : scanned.collector = src.tokens.2)
    (isFormed : formed.collector = (src.nodesOfTokens src.tokens.1).2) :
    src.parse = if (scanned.extend formed).errors = [] then .ok (src.nodesOfTokens src.tokens.1).1
      else .error (.ofList (scanned.extend formed).errors) := by
  have joined : src.tokens.2.extend (src.nodesOfTokens src.tokens.1).2 = (scanned.extend formed).collector := by
    rw [← isScanned, ← isFormed]
    rfl
  simp only [parse, joined, History.hasErrors_iff]
  by_cases clean : (scanned.extend formed).errors = []
  · rw [if_pos clean, if_neg (fun some => some clean)]
  · rw [if_neg clean, if_pos clean, History.collector_eq_ofList]

end Source

/-- Collectors keep the first twenty errors and count all. Whatever the history, the kept errors are
the first twenty of all, the total is their number, and the collector is full when there are twenty
or more; so it does not matter in which order collectors are joined. What a source fails with is
made of all errors of its tokens and then all errors of its forms. -/
theorem Collector.History.collector_exact :
    (∀ (α : Type) (h : History α),
      h.collector.kept = h.errors.take 20 ∧ h.collector.total = h.errors.length ∧
      (h.collector.isFull = true ↔ 20 ≤ h.errors.length)) ∧
    (∀ (α : Type) (a b c : History α),
      (a.collector.extend b.collector).extend c.collector =
        a.collector.extend (b.collector.extend c.collector)) ∧
    ∀ src : Source, ∃ scanned formed : History Report,
      scanned.collector = src.tokens.2 ∧ formed.collector = (src.nodesOfTokens src.tokens.1).2 ∧
      src.parse = if scanned.errors ++ formed.errors = [] then .ok (src.nodesOfTokens src.tokens.1).1
        else .error ⟨(scanned.errors ++ formed.errors).take 20, (scanned.errors ++ formed.errors).length⟩ := by
  refine ⟨?_, fun α => History.extend_assoc, ?_⟩
  · intro α h
    refine ⟨?_, ?_, h.isFull_iff⟩
    · rw [h.collector_eq_ofList]
      rfl
    · rw [h.collector_eq_ofList]
      rfl
  · intro src
    obtain ⟨scanned, isScanned⟩ := src.recorded_tokens
    obtain ⟨formed, isFormed⟩ := src.recorded_nodesOfTokens src.tokens.1
    exact ⟨scanned, formed, isScanned, isFormed, Source.parse_of_histories isScanned isFormed⟩

/-- Twenty-one errors joined behind one: the last two are counted and not kept. -/
example :
    let many := (List.range 21).foldl Collector.History.push .start
    (Collector.History.extend (.push .start 100) many).collector =
      ⟨100 :: List.range 19, 22⟩ := by decide

end CheckedLisp
