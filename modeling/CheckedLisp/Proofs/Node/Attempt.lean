import CheckedLisp.Proofs.Node.Descent
import CheckedLisp.Proofs.Node.Reach

/-! An attempt of the descent at some form gives it or reports one error, and leaves all else of the
cursor alone. One attempt made after another is again such an attempt. -/
namespace CheckedLisp.Descent

namespace Cursor

/-- Whether the cursor is in the body of some lambda. -/
def inLambda (c : Cursor) : Bool := 0 < c.depth

@[simp] theorem position_move (c : Cursor) (position : Nat) : (c.move position).position = position := rfl

@[simp] theorem move_move (c : Cursor) (first second : Nat) : (c.move first).move second = c.move second := rfl

@[simp] theorem inLambda_deeper (c : Cursor) : c.deeper.inLambda = true := by simp [inLambda, deeper]

end Cursor

variable {α β : Type} {src : Source} {tokens : List Token} {c : Cursor}

section Place

variable {token : Token} {behind : List Token}

theorem tokenAt_eq {position : Nat} (here : tokens.drop position = token :: behind) :
    tokenAt tokens position = token := by
  have found : tokens[position]? = some token := by
    rw [← List.head?_drop, here, List.head?_cons]
  rw [tokenAt, found]
  rfl

theorem lt_length {position : Nat} (here : tokens.drop position = token :: behind) : position < tokens.length := by
  have longer := congrArg List.length here
  rw [List.length_drop, List.length_cons] at longer
  omega

theorem drop_succ {position : Nat} (here : tokens.drop position = token :: behind) :
    tokens.drop (position + 1) = behind := by
  rw [← List.drop_drop, here]
  rfl

theorem bind_eq {a : α} {c' : Cursor} {work : Work α} (ran : work c = some (a, c')) (goOn : α → Work β) :
    (work >>= goOn) c = goOn a c' := by
  have unfolded : (work >>= goOn) c = (work c).bind fun (a, c') => goOn a c' := rfl
  rw [unfolded, ran]
  rfl

theorem get_bind (c : Cursor) (goOn : Cursor → Work α) : ((get : Work Cursor) >>= goOn) c = goOn c c := rfl

theorem modify_bind (c : Cursor) (f : Cursor → Cursor) (goOn : PUnit → Work α) :
    ((modify f : Work PUnit) >>= goOn) c = goOn ⟨⟩ (f c) := rfl

theorem peek_bind (c : Cursor) (goOn : Token → Work α) :
    (peek tokens >>= goOn) c = goOn (tokenAt tokens c.position) c := rfl

theorem advance_bind (here : tokens.drop c.position = token :: behind) (goOn : Span → Work α) :
    (advance tokens >>= goOn) c = goOn token.span (c.move (c.position + 1)) := by
  have found := tokenAt_eq here
  subst found
  change goOn _ (c.move (if c.position < tokens.length then _ else _)) = _
  rw [if_pos (lt_length here)]

end Place

section Skip

/-- The last token is an end. -/
def Finished (tokens : List Token) : Prop := ∃ span, tokens.getLast? = some ⟨.finish, span⟩

/-- Behind the last token there is still the end. -/
theorem kind_tokenAt_of_drop_eq_nil (finished : Finished tokens) {position : Nat} (here : tokens.drop position = []) :
    (tokenAt tokens position).kind = .finish := by
  obtain ⟨span, last⟩ := finished
  have found : tokens[position]? = none := by
    rw [← List.head?_drop, here, List.head?_nil]
  rw [tokenAt, found, last]
  rfl

/-- Skipping goes as far as the brackets say: any token but the end is gone over, and what is behind
it is skipped in turn. -/
theorem skip_eq (finished : Finished tokens) (behind : List Token) :
    ∀ (openBrackets : Nat) (c : Cursor), tokens.drop c.position = behind →
      skip tokens openBrackets c = some ((), c.move (c.position + Tree.toClose openBrackets behind)) := by
  induction behind with
  | nil =>
    intro openBrackets c here
    rw [skip, peek_bind, kind_tokenAt_of_drop_eq_nil finished here]
    rfl
  | cons token behind ih =>
    intro openBrackets c here
    have on : ∀ left, skip tokens left (c.move (c.position + 1)) =
        some ((), c.move (c.position + (Tree.toClose left behind + 1))) := by
      intro left
      rw [ih left (c.move (c.position + 1)) (drop_succ here)]
      simp only [Cursor.move_move, Cursor.position_move, Nat.add_comm 1, Nat.add_assoc]
    obtain ⟨kind, span⟩ := token
    rw [skip, peek_bind, tokenAt_eq here]
    cases kind with
    | opening => exact (advance_bind here _).trans (on (openBrackets + 1))
    | closing =>
      by_cases outer : openBrackets = 0
      · simp only [Tree.toClose, if_pos outer]
        exact advance_bind here _
      · simp only [Tree.toClose, if_neg outer]
        exact (advance_bind here _).trans (on (openBrackets - 1))
    | finish => rfl
    | quote => exact (advance_bind here _).trans (on openBrackets)
    | atom value => exact (advance_bind here _).trans (on openBrackets)

/-- From anywhere, skipping a list goes to its end. -/
theorem skipList_eq (finished : Finished tokens) {start : Nat} {opener : Span} {behind : List Token}
    (here : tokens.drop start = ⟨.opening, opener⟩ :: behind) :
    skipList tokens start c = some ((), c.move (Tree.endOf tokens start)) := by
  have far : Tree.endOf tokens start = start + 1 + Tree.toClose 0 behind := by
    simp only [Tree.endOf, here, Tree.extent]
    omega
  rw [far]
  exact skip_eq finished behind 0 (c.move (start + 1)) (drop_succ here)

end Skip

/-- What an attempt comes to when the cursor is at `position` in the end: an error is reported
once, and nothing else changes. -/
def outcome (src : Source) (c : Cursor) (position : Nat) : Except Form.Failure α → Option α × Cursor
  | .ok a => (some a, c.move position)
  | .error failure => (none, (c.move position).report src failure)

/-- The attempt ends with that answer, and `rest` is in front of the cursor if it is a success. -/
def Gives (src : Source) (tokens : List Token) (c : Cursor) (rest : List Token) (answer : Except Form.Failure α)
    (result : Option (Option α × Cursor)) : Prop :=
  ∃ position, (answer.isOk → tokens.drop position = rest) ∧ result = some (outcome src c position answer)

/-- The attempt ends with that answer, and `rest` is in front of the cursor in any case. -/
def Settles (src : Source) (tokens : List Token) (c : Cursor) (rest : List Token) (answer : Except Form.Failure α)
    (result : Option (Option α × Cursor)) : Prop :=
  ∃ position, tokens.drop position = rest ∧ result = some (outcome src c position answer)

theorem Settles.gives {rest : List Token} {answer : Except Form.Failure α} {result : Option (Option α × Cursor)}
    (settles : Settles src tokens c rest answer result) : Gives src tokens c rest answer result := by
  obtain ⟨position, reached, same⟩ := settles
  exact ⟨position, fun _ => reached, same⟩

namespace Gives

variable {rest middle : List Token}

theorem done (here : tokens.drop c.position = rest) (a : α) :
    Gives src tokens c rest (.ok a) ((pure (some a) : Work (Option α)) c) :=
  ⟨c.position, fun _ => here, rfl⟩

theorem fail (failure : Form.Failure) :
    Gives src tokens c rest (.error failure) ((Descent.fail src failure : Work (Option α)) c) := by
  refine ⟨c.position, ?_, rfl⟩
  intro ok
  cases ok

theorem give (here : tokens.drop c.position = rest) (answer : Except Form.Failure α) :
    Gives src tokens c rest answer (Descent.give src answer c) := by
  cases answer with
  | ok a => exact done here a
  | error failure => exact fail failure

/-- The bracket of a list is gone over. -/
theorem close {span : Span} (here : tokens.drop c.position = ⟨.closing, span⟩ :: rest) (f : Span → α) :
    Gives src tokens c rest (.ok (f span)) ((advance tokens >>= fun close => pure (some (f close))) c) :=
  ⟨c.position + 1, fun _ => drop_succ here, advance_bind here _⟩

/-- At the end of a row there is the bracket of the list, or the list was never closed. -/
theorem closed (opener : Span) {stop : Stop} {f : Span → α} {body : Token → Work (Option α)}
    (ends : stop.Ends (tokens.drop c.position) rest)
    (closing : ∀ span, body ⟨.closing, span⟩ = advance tokens >>= fun close => pure (some (f close)))
    (finish : ∀ span, body ⟨.finish, span⟩ = Descent.fail src ⟨opener, .unclosed⟩) :
    Gives src tokens c rest (Form.closed opener stop >>= fun close => .ok (f close)) ((peek tokens >>= body) c) := by
  obtain ⟨_, here⟩ := ends.leads
  rw [peek_bind, tokenAt_eq here]
  cases stop with
  | closing span =>
    rw [Stop.kind, closing]
    exact close ends f
  | finish span =>
    rw [Stop.kind, finish]
    exact fail _

section

variable {answer : Except Form.Failure α} {follow : α → Except Form.Failure β} {work : Work (Option α)}
  {goOn : Option α → Work (Option β)}

/-- One attempt after another: the second is made if the first is a success. -/
theorem bind (first : Gives src tokens c middle answer (work c)) (stops : goOn none = pure none)
    (second : ∀ a position, tokens.drop position = middle →
      Gives src tokens (c.move position) rest (follow a) (goOn (some a) (c.move position))) :
    Gives src tokens c rest (answer >>= follow) ((work >>= goOn) c) := by
  obtain ⟨position, reached, same⟩ := first
  rw [bind_eq same]
  cases answer with
  | ok a => exact second a position (reached rfl)
  | error failure =>
    refine ⟨position, ?_, ?_⟩
    · intro ok
      cases ok
    · change goOn none ((c.move position).report src failure) = _
      rw [stops]
      rfl

end

end Gives

/-- The work is done in the body of a lambda. -/
def inBody (work : Work α) : Work α := do
  modify (·.deeper)
  let result ← work
  modify (·.shallower)
  return result

theorem inBody_bind (work : Work α) (goOn : α → Work β) :
    inBody work >>= goOn = (do
      modify (·.deeper)
      let result ← work
      modify (·.shallower)
      goOn result) := by
  simp only [inBody, bind_assoc, pure_bind]

/-- Behind the body the cursor is in as many lambdas as before. -/
theorem Gives.inBody {rest : List Token} {answer : Except Form.Failure α} {work : Work (Option α)}
    (gives : Gives src tokens c.deeper rest answer (work c.deeper)) :
    Gives src tokens c rest answer (inBody work c) := by
  obtain ⟨position, reached, same⟩ := gives
  refine ⟨position, reached, ?_⟩
  rw [Descent.inBody, modify_bind, bind_eq same]
  cases answer <;> rfl

end CheckedLisp.Descent
