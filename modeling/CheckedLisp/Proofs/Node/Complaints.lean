import CheckedLisp.Node.Parse

/-! Scanning and parsing report errors of the grammar and no others, so the category of an error
tells whether a program was refused or has run. -/
namespace CheckedLisp

/-- All kept errors are about the grammar. -/
def Diagnostics.Grammatical (errors : Diagnostics) : Prop :=
  ∀ report ∈ errors.kept, report.code.category = .grammar

namespace Diagnostics.Grammatical

variable {errors others : Diagnostics}

theorem empty : Grammatical .empty := by
  intro report member
  cases member

theorem push (sound : errors.Grammatical) {report : Report} (about : report.code.category = .grammar) :
    Grammatical (errors.push report) := by
  intro kept member
  simp only [Collector.push] at member
  split at member
  · rcases List.mem_append.1 member with old | new
    · exact sound kept old
    · rw [List.mem_singleton.1 new]
      exact about
  · exact sound kept member

theorem foldl_push (sound : errors.Grammatical) {reports : List Report}
    (about : ∀ report ∈ reports, report.code.category = .grammar) :
    Grammatical (reports.foldl Collector.push errors) := by
  induction reports generalizing errors with
  | nil => exact sound
  | cons report reports ih =>
    obtain ⟨first, rest⟩ := List.forall_mem_cons.1 about
    exact ih (sound.push first) rest

theorem extend (sound : errors.Grammatical) (sound' : others.Grammatical) :
    Grammatical (errors.extend others) :=
  sound.foldl_push sound'

end Diagnostics.Grammatical

theorem Token.Fault.category_code (fault : Token.Fault) : fault.code.category = .grammar := by
  cases fault <;> simp [code, Code.category, Code.unterminatedString, Code.invalidLiteral]

theorem Form.Fault.category_code (fault : Form.Fault) : fault.code.category = .grammar := by
  cases fault <;>
    simp [code, Code.category, Code.unexpectedToken, Code.unclosedList, Code.returnOutside,
      Code.invalidForm]

namespace Scan

variable {src : Source} {r : Result} {P : Diagnostics → Prop}

theorem errors_enter (p : Position) (c : Char) : (r.enter p c).2.errors = r.errors := by
  simp only [Result.enter]
  repeat' split
  all_goals rfl

section

variable (step : ∀ errors span (fault : Token.Fault), P errors →
  P (errors.push (src.report span fault.code fault.message)))

include step

theorem errors_endAtom (holds : P r.errors) (start p : Position) (read : List Char) :
    P (r.endAtom src start p read).errors := by
  unfold Result.endAtom
  split
  · exact holds
  · exact step _ _ _ holds

theorem errors_close (holds : P r.errors) (p : Position) (mode : Mode) : P (r.close src p mode).errors := by
  cases mode with
  | gap | comment => exact holds
  | atom start read => exact errors_endAtom step holds start p read
  | string start read | escape start read slash => exact step _ _ _ holds

/-- What every complaint keeps, scanning keeps. One case per mode and character: only a malformed
lexeme adds an error. -/
theorem errors_run (holds : P r.errors) (mode : Mode) (p : Position) (cs : List Char) :
    P (run src mode p cs r).errors := by
  induction cs generalizing mode p r with
  | nil =>
    rw [run]
    exact errors_close step holds p mode
  | cons c cs ih =>
    cases mode with
    | gap =>
      rw [run]
      split
      · exact holds
      · exact ih ((errors_enter p c).symm ▸ holds) _ _
    | comment =>
      rw [run]
      exact ih holds _ _
    | atom start read =>
      have ended : P (r.endAtom src start p read).errors := errors_endAtom step holds start p read
      rw [run]
      split
      · dsimp only
        split
        · exact ended
        · exact ih ((errors_enter p c).symm ▸ ended) _ _
      · exact ih holds _ _
    | string start read =>
      rw [run]
      split
      · apply ih
        exact holds
      · split <;> exact ih holds _ _
    | escape start read slash =>
      rw [run]
      split
      · exact ih holds _ _
      · apply ih
        exact step _ _ _ holds

end

end Scan

namespace Source

theorem errors_nodesOfTrees {src : Source} {P : Diagnostics → Prop}
    (step : ∀ errors span (fault : Form.Fault), P errors →
      P (errors.push (src.report span fault.code fault.message)))
    (trees : List Tree) {errors : Diagnostics} (holds : P errors) : P (src.nodesOfTrees trees errors).2 := by
  induction trees generalizing errors with
  | nil => exact holds
  | cons tree rest ih =>
    rw [nodesOfTrees]
    split
    · exact holds
    · split
      · exact ih holds
      · exact ih (step _ _ _ holds)

/-- A source that does not parse has errors of the grammar alone. -/
theorem grammatical_of_parse {src : Source} {errors : Diagnostics} (failed : src.parse = .error errors) :
    errors.Grammatical := by
  have scanned : src.tokens.2.Grammatical :=
    Scan.errors_run (fun _ _ fault sound => sound.push fault.category_code) .empty _ _ _
  have formed : (src.nodesOfTokens src.tokens.1).2.Grammatical :=
    errors_nodesOfTrees (fun _ _ fault sound => sound.push fault.category_code) _ .empty
  simp only [parse] at failed
  split at failed
  · rw [← Except.error.inj failed]
    exact scanned.extend formed
  · cases failed

end Source

end CheckedLisp
