import CheckedLisp.Proofs.Eval.Moments
import CheckedLisp.Proofs.Eval.Writing

/-! A run whose sink takes everything is compared with a run of the same code whose sink has room
for some number of bytes. Either all output fits and both end alike, or the second run is stopped by
the call that overflows its sink, while the first goes on. As that call is one of the moments of the
first run, the comparison is made along with these moments. -/
namespace CheckedLisp

namespace Sink

/-- The sink with room for `k` bytes, holding as many of those that were written. -/
def capped (s : Sink) (k : Nat) : Sink := ⟨s.written.extract 0 k, some k⟩

variable {s : Sink} {k : Nat}

theorem written_capped (fits : s.written.size ≤ k) : (s.capped k).written = s.written :=
  extract_of_size_le fits

/-- The sink with room for `k` bytes takes what the other takes, as long as it fits. -/
theorem write_capped (unbounded : s.capacity = none) (fits : s.written.size ≤ k) (text : String) :
    (s.capped k).write text =
      (decide ((s.write text).2.written.size ≤ k), (s.write text).2.capped k) := by
  have joined : (s.written ++ text.toUTF8).extract 0 k =
      s.written ++ text.toUTF8.extract 0 (k - s.written.size) := by
    rw [ByteArray.extract_append, extract_of_size_le fits, Nat.zero_sub]
  have room : text.toUTF8.size ≤ k - s.written.size ↔ (s.written ++ text.toUTF8).size ≤ k := by
    rw [ByteArray.size_append]
    omega
  rw [write_bounded rfl, write_unbounded unbounded, written_capped fits]
  simp only [capped, joined, room]

end Sink

namespace Machine

def withSink (m : Machine) (sink : Sink) : Machine := { m with sink }

/-- The machine whose sink has room for `k` bytes. -/
def capped (m : Machine) (k : Nat) : Machine := m.withSink (m.sink.capped k)

theorem capped_start (limit k : Nat) : (start limit none).capped k = start limit (some k) := by
  have nothing : (ByteArray.empty).extract 0 k = .empty := Sink.extract_of_size_le (Nat.zero_le k)
  simp only [capped, withSink, Sink.capped, start, Sink.empty, nothing]

end Machine

namespace Capping

open Budget (Ending)
open Eval Machine Sequencing

variable {ε ε' α β : Type}

def withSink (sink : Sink) : Ending ε α → Ending ε α
  | .ok a m => .ok a (m.withSink sink)
  | .error e m => .error e (m.withSink sink)

def capped (k : Nat) : Ending ε α → Ending ε α
  | .ok a m => .ok a (m.capped k)
  | .error e m => .error e (m.capped k)

/-- A computation that neither writes nor looks at what was written. -/
def Silent (x : EStateM ε Machine α) : Prop := ∀ m sink, x (m.withSink sink) = withSink sink (x m)

namespace Silent

theorem sink {x : EStateM ε Machine α} (silent : Silent x) (m : Machine) :
    (Ending.machine (x m)).sink = m.sink := by
  have same : x m = withSink m.sink (x m) := silent m m.sink
  rw [same]
  cases x m <;> rfl

theorem capped {x : EStateM ε Machine α} (silent : Silent x) (m : Machine) (k : Nat) :
    x (m.capped k) = Capping.capped k (x m) := by
  have same := silent.sink m
  rw [Machine.capped, silent, ← same]
  cases x m <;> rfl

theorem pure (a : α) : Silent (pure a : EStateM ε Machine α) := fun _ _ => rfl

theorem throw (e : ε) : Silent (throw e : EStateM ε Machine α) := fun _ _ => rfl

theorem bind {x : EStateM ε Machine α} {next : α → EStateM ε Machine β} (first : Silent x)
    (second : ∀ a, Silent (next a)) : Silent (x >>= next) := by
  intro m sink
  rw [bind_apply, bind_apply, first m sink]
  cases x m with
  | ok a m' => exact second a m' sink
  | error e m' => rfl

end Silent

/-- At the moment `function` is called, to write the byte after the first `k`. -/
structure Overflows (k : Nat) (span : Span) (function : Builtin) (moment : Moment) : Prop where
  applied : ∃ scope args, moment.task = .apply scope span (.builtin function) args
  writes : function = .display ∨ function = .newline
  before : moment.machine.sink.written.size ≤ k
  after : k < moment.ending.machine.sink.written.size

/-- An ending `r` with the moments `met` on the way, beside that of the same code with room for `k`
bytes. `stop` makes an exit of a failure. -/
inductive Ends (stop : Failure → ε) (k : Nat) (met : List Moment) (r : Ending ε α) : Ending ε α → Prop
  | whole (fits : r.machine.sink.written.size ≤ k) : Ends stop k met r (capped k r)
  | cut {span : Span} {function : Builtin} {moment : Moment} (member : moment ∈ met)
    (overflows : Overflows k span function moment)
    (onward : ∃ more, r.machine.sink.written = moment.ending.machine.sink.written ++ more) :
    Ends stop k met r (.error (stop ⟨span, .builtin function .outputFull⟩) (moment.ending.machine.capped k))

/-- How a computation on `m` ends, in `r`, and how on the machine with room for `k` bytes, in `r'`. -/
structure Beside (stop : Failure → ε) (k : Nat) (m : Machine) (met : List Moment) (r r' : Ending ε α) : Prop where
  unbounded : r.machine.sink.capacity = none
  grows : ∃ more, r.machine.sink.written = m.sink.written ++ more
  /-- As long as there is room, the two are compared. -/
  ends : m.sink.written.size ≤ k → Ends stop k met r r'

variable {stop : Failure → ε} {stop' : Failure → ε'} {k : Nat} {m : Machine} {met met' : List Moment}
  {r r' : Ending ε α}

theorem Ends.mono (ends : Ends stop k met r r') (more : met ⊆ met') : Ends stop k met' r r' := by
  cases ends with
  | whole fits => exact .whole fits
  | cut member overflows onward => exact .cut (more member) overflows onward

theorem Beside.mono (beside : Beside stop k m met r r') (more : met ⊆ met') : Beside stop k m met' r r' :=
  ⟨beside.unbounded, beside.grows, fun fits => (beside.ends fits).mono more⟩

/-- What a cut run has written is what fits of the other's output. -/
theorem Ends.written (ends : Ends stop k met r r') :
    r'.machine.sink.written = r.machine.sink.written.extract 0 k := by
  cases ends with
  | whole fits => cases r <;> rfl
  | cut member overflows onward =>
    obtain ⟨more, extended⟩ := onward
    rw [extended, Sink.extract_append_of_le (Nat.le_of_lt overflows.after)]
    rfl

theorem Ends.eq_capped (ends : Ends stop k met r r') (fits : r.machine.sink.written.size ≤ k) : r' = capped k r := by
  cases ends with
  | whole _ => rfl
  | cut _ overflows onward =>
    obtain ⟨more, extended⟩ := onward
    rw [extended, ByteArray.size_append] at fits
    have after := overflows.after
    omega

theorem Ends.cut_of_lt (ends : Ends stop k met r r') (beyond : k < r.machine.sink.written.size) :
    ∃ span function, ∃ moment ∈ met, Overflows k span function moment ∧
      r' = .error (stop ⟨span, .builtin function .outputFull⟩) (moment.ending.machine.capped k) := by
  cases ends with
  | whole fits => exact absurd beyond (Nat.not_lt_of_le fits)
  | cut member overflows _ => exact ⟨_, _, _, member, overflows, rfl⟩

theorem Silent.beside {x : EStateM ε Machine α} (silent : Silent x) (unbounded : m.sink.capacity = none) :
    Beside stop k m [] (x m) (x (m.capped k)) := by
  have same := silent.sink m
  refine ⟨same ▸ unbounded, ⟨.empty, ?_⟩, ?_⟩
  · rw [same, ByteArray.append_empty]
  · intro fits
    rw [silent.capped]
    exact .whole (same ▸ fits)

section

variable {x : EStateM ε Machine α} {next : α → EStateM ε Machine β} {met' : α → Machine → List Moment}

/-- A run that is not stopped goes on, and only adds to its output. -/
theorem Beside.bind (first : Beside stop k m met (x m) (x (m.capped k)))
    (second : ∀ a m', m'.sink.capacity = none →
      Beside stop k m' (met' a m') (next a m') (next a (m'.capped k))) :
    Beside stop k m (met ++ following x m met') ((x >>= next) m) ((x >>= next) (m.capped k)) := by
  rw [bind_apply, bind_apply, following]
  generalize x (m.capped k) = r' at first
  cases run : x m with
  | ok a m₁ =>
    rw [run] at first
    have rest := second a m₁ first.unbounded
    obtain ⟨more, extended⟩ := first.grows
    obtain ⟨more', extended'⟩ := rest.grows
    refine ⟨rest.unbounded, ⟨more ++ more', ?_⟩, ?_⟩
    · rw [← ByteArray.append_assoc]
      exact extended'.trans (congrArg (· ++ more') extended)
    · intro fits
      cases first.ends fits with
      | whole inside => exact (rest.ends inside).mono (List.subset_append_right _ _)
      | cut member overflows onward =>
        obtain ⟨between, written⟩ := onward
        refine .cut (List.mem_append_left _ member) overflows ⟨between ++ more', ?_⟩
        rw [← ByteArray.append_assoc]
        exact extended'.trans (congrArg (· ++ more') written)
  | error e m₁ =>
    rw [run] at first
    refine ⟨first.unbounded, first.grows, ?_⟩
    intro fits
    rw [List.append_nil]
    cases first.ends fits with
    | whole inside => exact .whole (r := .error e m₁) inside
    | cut member overflows onward => exact .cut member overflows onward

/-- What meets nothing is no part of the list. -/
theorem Beside.bind_of_silent (silent : Silent x) (unbounded : m.sink.capacity = none)
    (second : ∀ a m', m'.sink.capacity = none →
      Beside stop k m' (met' a m') (next a m') (next a (m'.capped k))) :
    Beside stop k m (following x m met') ((x >>= next) m) ((x >>= next) (m.capped k)) :=
  (silent.beside unbounded).bind second

theorem Beside.bind_silent (first : Beside stop k m met (x m) (x (m.capped k))) (second : ∀ a, Silent (next a)) :
    Beside stop k m met ((x >>= next) m) ((x >>= next) (m.capped k)) := by
  have beside := first.bind fun a m' unbounded => (second a).beside (m := m') unbounded
  rwa [following_nil, List.append_nil] at beside

end

/-- Handling of exits that lets failures through. -/
theorem Beside.handled {handle : ε → Except ε' α} (beside : Beside stop k m met r r')
    (through : ∀ failure, handle (stop failure) = .error (stop' failure)) :
    Beside stop' k m met (r.handled handle) (r'.handled handle) := by
  refine ⟨?_, ?_, ?_⟩
  · rw [Ending.machine_handled]
    exact beside.unbounded
  · rw [Ending.machine_handled]
    exact beside.grows
  · intro fits
    cases beside.ends fits with
    | whole inside =>
      have same : (capped k r).handled handle = capped k (r.handled handle) := by
        cases r with
        | ok a m' => rfl
        | error e m' =>
          simp only [capped, Ending.handled]
          cases handle e <;> rfl
      rw [same]
      exact .whole (by rwa [Ending.machine_handled])
    | cut member overflows onward =>
      have stopped : ∀ failure m', Ending.handled handle (.error (stop failure) m' : Ending ε α) =
          .error (stop' failure) m' := by
        intro failure m'
        simp only [Ending.handled, through]
      rw [stopped]
      exact .cut member overflows (by rwa [Ending.machine_handled])

theorem Beside.catchReturn {y : Run Value} (beside : Beside .failure k m met (y m) (y (m.capped k))) :
    Beside .failure k m met (catchReturn y m) (catchReturn y (m.capped k)) := by
  rw [Budget.catchReturn_eq_handled, Budget.catchReturn_eq_handled]
  exact beside.handled fun _ => rfl

theorem Beside.liftFailure {y : Run α} (beside : Beside .failure k m met (y m) (y (m.capped k)))
    (onReturn : Value → Except Failure α) :
    Beside id k m met (liftFailure y onReturn m) (liftFailure y onReturn (m.capped k)) := by
  rw [Budget.liftFailure_eq_handled, Budget.liftFailure_eq_handled]
  exact beside.handled fun _ => rfl

end Capping

end CheckedLisp
