import CheckedLisp.Proofs.Sequencing
import CheckedLisp.Proofs.Ty.Grammar

/-! The tokens of a text are its only split. Reading goes from state to state; the states say which
part of a derivation has been read, and every state can still be led to a complete type. So reading
accepts exactly the annotations, and the token that it refuses is the first with which no annotation
begins. -/
namespace CheckedLisp.TypeText

section Tokens

variable {position : Nat} {cs read word rest : List Char} {tokens : List Token}

theorem isPlain_iff {c : Char} : isPlain c = true ↔ c ≠ '(' ∧ c ≠ ')' ∧ Text.isBlank c = false := by
  simp [isPlain, and_assoc]

theorem tokensFrom_blank {c : Char} (blank : Text.isBlank c) :
    tokensFrom position read (c :: cs) = wordBefore position read ++ tokensFrom (position + 1) [] cs := by
  have notOpening : c ≠ '(' := by
    rintro rfl
    exact absurd blank (by decide)
  have notClosing : c ≠ ')' := by
    rintro rfl
    exact absurd blank (by decide)
  rw [tokensFrom, if_neg notOpening, if_neg notClosing, if_pos blank]

/-- The characters of a word are collected. -/
theorem tokensFrom_plain (plain : ∀ c ∈ word, isPlain c) :
    tokensFrom position read (word ++ rest) =
      tokensFrom (position + word.length) (word.reverse ++ read) rest := by
  induction word generalizing position read with
  | nil => rfl
  | cons c word ih =>
    obtain ⟨first, others⟩ := List.forall_mem_cons.1 plain
    obtain ⟨notOpening, notClosing, notBlank⟩ := isPlain_iff.1 first
    rw [List.cons_append, tokensFrom, if_neg notOpening, if_neg notClosing, if_neg (by simp [notBlank]),
      ih others]
    simp [Nat.add_right_comm, Nat.add_assoc]

/-- What is no part of a word ends it. -/
theorem tokensFrom_ends (ends : ∀ c ∈ rest.head?, isPlain c = false) :
    tokensFrom position read rest = wordBefore position read ++ tokensFrom position [] rest := by
  cases rest with
  | nil => simp [tokensFrom, wordBefore]
  | cons c rest =>
    have other : isPlain c = false := ends c rfl
    have none : wordBefore position [] = [] := rfl
    by_cases opening : c = '('
    · subst opening
      simp [tokensFrom, none]
    by_cases closing : c = ')'
    · subst closing
      simp [tokensFrom, none]
    · have blank : Text.isBlank c = true := by simpa [isPlain, opening, closing] using other
      rw [tokensFrom_blank blank, tokensFrom_blank blank, none, List.nil_append]

theorem wordBefore_of_ne_nil (position : Nat) (nonempty : read ≠ []) :
    wordBefore (position + read.length) read = [⟨.word (String.ofList read.reverse), position⟩] := by
  simp [wordBefore, nonempty]

theorem Splits.eq_tokensFrom (splits : Splits position cs tokens) : tokensFrom position [] cs = tokens := by
  induction splits with
  | nil => rfl
  | blank blank _ ih => rw [tokensFrom_blank blank, ih]; rfl
  | opening _ ih => rw [tokensFrom, if_pos rfl, ih]; rfl
  | closing _ ih => rw [tokensFrom, if_neg (by decide), if_pos rfl, ih]; rfl
  | @word start _ _ _ nonempty plain ends _ ih =>
    have found := wordBefore_of_ne_nil start (List.reverse_ne_nil_iff.2 nonempty)
    rw [List.length_reverse, List.reverse_reverse] at found
    rw [tokensFrom_plain plain, tokensFrom_ends ends, List.append_nil, found, ih]
    rfl

/-- An unfinished word in front of a split is one more token. -/
theorem Splits.after_word (plain : ∀ c ∈ read, isPlain c) (ends : ∀ c ∈ rest.head?, isPlain c = false)
    (splits : Splits (position + read.length) rest tokens) :
    Splits position (read.reverse ++ rest) (wordBefore (position + read.length) read ++ tokens) := by
  by_cases empty : read = []
  · subst empty
    exact splits
  · rw [wordBefore_of_ne_nil position empty]
    exact .word (by simpa using empty) (by simpa using plain) ends (by simpa using splits)

/-- The tokens of a text, if `read` is the word that it continues. -/
theorem splits_tokensFrom (position : Nat) (read cs : List Char) (plain : ∀ c ∈ read, isPlain c) :
    Splits position (read.reverse ++ cs) (tokensFrom (position + read.length) read cs) := by
  induction cs generalizing position read with
  | nil =>
    have done : Splits position (read.reverse ++ []) _ := .after_word plain (by simp) .nil
    simpa [tokensFrom] using done
  | cons c cs ih =>
    have later (start : Nat) : Splits start cs (tokensFrom start [] cs) := ih start [] (by simp)
    by_cases inside : isPlain c
    · have longer := ih position (c :: read) (List.forall_mem_cons.2 ⟨inside, plain⟩)
      obtain ⟨notOpening, notClosing, notBlank⟩ := isPlain_iff.1 inside
      rw [tokensFrom, if_neg notOpening, if_neg notClosing, if_neg (by simp [notBlank])]
      simpa [Nat.add_assoc] using longer
    · have ends : ∀ d ∈ (c :: cs).head?, isPlain d = false := by
        rintro d ⟨⟩
        simpa using inside
      rw [tokensFrom_ends ends]
      apply Splits.after_word plain ends
      by_cases opening : c = '('
      · subst opening
        exact .opening (later _)
      by_cases closing : c = ')'
      · subst closing
        exact .closing (later _)
      · have blank : Text.isBlank c = true := by simpa [isPlain, opening, closing] using inside
        rw [tokensFrom_blank blank]
        exact .blank blank (later _)

/-- A text has one split. -/
theorem splits_iff : Splits position cs tokens ↔ tokens = tokensFrom position [] cs := by
  constructor
  · intro splits
    exact splits.eq_tokensFrom.symm
  · rintro rfl
    exact splits_tokensFrom position [] cs (by simp)

theorem Splits.ne_finish (splits : Splits position cs tokens) : .finish ∉ lexemes tokens := by
  induction splits with
  | nil => simp [lexemes]
  | blank _ _ ih => exact ih
  | opening _ ih | closing _ ih | word _ _ _ _ ih => simpa [lexemes] using ih

end Tokens

/-- What one lexeme can do. -/
inductive Step : State → Lexeme → State → Prop
  | atom {name ty contexts} (known : (name, ty) ∈ atoms) :
    Step (.type contexts) (.word name) (deliver ty contexts)
  | open {contexts} : Step (.type contexts) .opening (.head contexts)
  | endParams {before contexts} :
    Step (.type (.params before :: contexts)) .closing (.type (.result before :: contexts))
  | endMembers {before contexts} :
    Step (.type (.members before :: contexts)) .closing (deliver (.join before) contexts)
  | callable {contexts} : Step (.head contexts) (.word "Callable") (.params contexts)
  | union {contexts} : Step (.head contexts) (.word "Union") (.type (.members [] :: contexts))
  | variadic {contexts} : Step (.head contexts) (.word "Variadic") (.type (.element :: contexts))
  | openParams {contexts} : Step (.params contexts) .opening (.type (.params [] :: contexts))
  | close {ending ty contexts} : Step (.close ending ty contexts) .closing (deliver ty contexts)

inductive Steps : State → List Lexeme → State → Prop
  | refl {state} : Steps state [] state
  | cons {state between last lexeme rest} (first : Step state lexeme between) (others : Steps between rest last) :
    Steps state (lexeme :: rest) last

section Steps

variable {state between last : State} {token : Token} {tokens : List Token} {read rest : List Lexeme}
  {fault : Fault} {name : String} {ty : Ty} {contexts : List Context}

theorem atom?_eq_some : atom? name = some ty ↔ (name, ty) ∈ atoms := by
  simp only [atoms, List.mem_cons, Prod.mk.injEq, List.not_mem_nil, or_false]
  unfold atom?
  split <;> grind

theorem head?_eq_some : head? contexts name = some state ↔ Step (.head contexts) (.word name) state := by
  constructor
  · intro known
    unfold head? at known
    split at known <;> cases known
    · exact .callable
    · exact .union
    · exact .variadic
  · intro step
    cases step <;> rfl

theorem step_of_feed (fed : feed state token = .ok last) : Step state token.lexeme last := by
  obtain ⟨lexeme, position⟩ := token
  unfold feed at fed
  split at fed
  · next named =>
    cases named
    split at fed <;> cases fed
    next known => exact .atom (atom?_eq_some.1 known)
  · next named =>
    cases named
    cases fed
    exact .open
  · next named =>
    cases named
    cases fed
    exact .endParams
  · next named =>
    cases named
    cases fed
    exact .endMembers
  · next named =>
    cases named
    split at fed <;> cases fed
    next known => exact head?_eq_some.1 known
  · next named =>
    cases named
    cases fed
    exact .openParams
  · next named =>
    cases named
    cases fed
    exact .close
  · cases fed

theorem feed_of_step (step : Step state token.lexeme last) : feed state token = .ok last := by
  obtain ⟨lexeme, position⟩ := token
  cases step with
  | atom known => simp [feed, atom?_eq_some.2 known]
  | _ => rfl

/-- Reading a token succeeds by what its lexeme can do. -/
theorem feed_eq_ok : feed state token = .ok last ↔ Step state token.lexeme last :=
  ⟨step_of_feed, feed_of_step⟩

theorem foldlM_eq_ok : tokens.foldlM feed state = .ok last ↔ Steps state (lexemes tokens) last := by
  induction tokens generalizing state with
  | nil =>
    constructor
    · rintro ⟨⟩
      exact .refl
    · rintro ⟨⟩
      rfl
  | cons token tokens ih =>
    rw [List.foldlM_cons, Sequencing.except_bind_eq_ok]
    simp only [feed_eq_ok, ih]
    constructor
    · rintro ⟨between, first, others⟩
      exact .cons first others
    · intro steps
      cases steps with
      | cons first others => exact ⟨_, first, others⟩

theorem Steps.unique (steps : Steps state read between) (steps' : Steps state read last) : between = last := by
  have tokens : lexemes (read.map fun lexeme => ⟨lexeme, 0⟩) = read := by simp [lexemes, Function.comp_def]
  rw [← tokens, ← foldlM_eq_ok] at steps steps'
  rw [steps] at steps'
  cases steps'
  rfl

theorem steps_append : Steps state (read ++ rest) last ↔
    ∃ between, Steps state read between ∧ Steps between rest last := by
  induction read generalizing state with
  | nil =>
    constructor
    · intro steps
      exact ⟨state, .refl, steps⟩
    · rintro ⟨_, ⟨⟩, steps⟩
      exact steps
  | cons lexeme read ih =>
    constructor
    · intro steps
      cases steps with
      | cons first others =>
        obtain ⟨between, before, after⟩ := ih.1 others
        exact ⟨between, .cons first before, after⟩
    · rintro ⟨between, _ | ⟨first, before⟩, after⟩
      exact .cons first (ih.2 ⟨between, before, after⟩)

theorem steps_singleton {lexeme : Lexeme} : Steps state [lexeme] last ↔ Step state lexeme last := by
  constructor
  · rintro (_ | ⟨first, ⟨⟩⟩)
    exact first
  · intro step
    exact .cons step .refl

theorem Steps.snoc {lexeme : Lexeme} (steps : Steps state read between) (step : Step between lexeme last) :
    Steps state (read ++ [lexeme]) last :=
  steps_append.2 ⟨between, steps, steps_singleton.2 step⟩

theorem Steps.ne_finish (steps : Steps state read last) : .finish ∉ read := by
  induction steps with
  | refl => simp
  | cons first _ ih => cases first <;> simpa using ih

end Steps

section States

variable {state last : State} {read own : List Lexeme} {ty : Ty} {tys : List Ty} {contexts : List Context}

mutual

/-- The lexemes of a type hand it to what waits for it. -/
theorem steps_of_derives : ∀ {own : List Lexeme} {ty : Ty}, Derives own ty → ∀ contexts : List Context,
    Steps (.type contexts) own (deliver ty contexts)
  | _, _, .atom known, contexts => .cons (.atom known) .refl
  | _, _, @Derives.callable _ _ tys _ derivedParams derived, contexts => by
    have params := steps_of_derivesAll derivedParams .params (fun _ _ _ => rfl) [] contexts
    have result := steps_of_derives derived (.result tys :: contexts)
    have rest := Steps.cons .endParams (result.snoc .close)
    exact .cons .open (.cons .callable (.cons .openParams (steps_append.2 ⟨_, params, rest⟩)))
  | _, _, .union derived, contexts => by
    have members := steps_of_derivesAll derived .members (fun _ _ _ => rfl) [] contexts
    exact .cons .open (.cons .union (members.snoc .endMembers))
  | _, _, .variadic derived, contexts =>
    .cons .open (.cons .variadic ((steps_of_derives derived _).snoc .close))

/-- The types of a list are added to those that its context holds. -/
theorem steps_of_derivesAll : ∀ {own : List Lexeme} {tys : List Ty}, DerivesAll own tys →
    ∀ (list : List Ty → Context)
      (_ : ∀ ty before contexts, deliver ty (list before :: contexts) = .type (list (before ++ [ty]) :: contexts))
      (before : List Ty) (contexts : List Context),
    Steps (.type (list before :: contexts)) own (.type (list (before ++ tys) :: contexts))
  | _, _, .nil, _, _, before, _ => by
    rw [List.append_nil]
    exact .refl
  | _, _, @DerivesAll.cons _ _ ty _ derived others, list, holds, before, contexts => by
    have first := steps_of_derives derived (list before :: contexts)
    have rest := steps_of_derivesAll others list holds (before ++ [ty]) contexts
    rw [holds] at first
    rw [List.append_assoc, List.singleton_append] at rest
    exact steps_append.2 ⟨_, first, rest⟩

end

theorem DerivesAll.snoc {more : List Lexeme} (derived : Derives more ty) :
    ∀ {own : List Lexeme} {tys : List Ty}, DerivesAll own tys → DerivesAll (own ++ more) (tys ++ [ty])
  | _, _, .nil => by simpa using DerivesAll.cons derived .nil
  | _, _, .cons first others => by
    rw [List.append_assoc]
    exact .cons first (others.snoc derived)

/-- What has been read of the type that a context belongs to. -/
def Context.Holds : Context → List Lexeme → Prop
  | params before, read =>
    ∃ own, DerivesAll own before ∧ read = .opening :: .word "Callable" :: .opening :: own
  | result tys, read =>
    ∃ own, DerivesAll own tys ∧ read = .opening :: .word "Callable" :: .opening :: (own ++ [.closing])
  | members before, read => ∃ own, DerivesAll own before ∧ read = .opening :: .word "Union" :: own
  | element, read => read = [.opening, .word "Variadic"]

def HoldAll : List Context → List Lexeme → Prop
  | [], read => read = []
  | context :: contexts, read => ∃ outer own, HoldAll contexts outer ∧ context.Holds own ∧ read = outer ++ own

/-- What has been read when a state is reached. -/
def State.Holds : State → List Lexeme → Prop
  | type contexts, read => HoldAll contexts read
  | head contexts, read => ∃ outer, HoldAll contexts outer ∧ read = outer ++ [.opening]
  | params contexts, read => ∃ outer, HoldAll contexts outer ∧ read = outer ++ [.opening, .word "Callable"]
  | close _ ty contexts, read =>
    ∃ outer own, HoldAll contexts outer ∧ Derives (own ++ [.closing]) ty ∧ read = outer ++ own
  | complete ty, read => Derives read ty

theorem holds_deliver (outside : HoldAll contexts read) (derived : Derives own ty) :
    (deliver ty contexts).Holds (read ++ own) := by
  cases contexts with
  | nil =>
    obtain rfl : read = [] := outside
    exact derived
  | cons context contexts =>
    obtain ⟨outer, _, outside, inside, rfl⟩ := outside
    cases context with
    | params before =>
      obtain ⟨params, derivedParams, rfl⟩ := inside
      exact ⟨outer, _, outside, ⟨params ++ own, derivedParams.snoc derived, rfl⟩, by simp⟩
    | result params =>
      obtain ⟨params, derivedParams, rfl⟩ := inside
      have whole := Derives.callable derivedParams derived
      exact ⟨outer, _, outside, by simpa using whole, List.append_assoc _ _ _⟩
    | members before =>
      obtain ⟨members, derivedMembers, rfl⟩ := inside
      exact ⟨outer, _, outside, ⟨members ++ own, derivedMembers.snoc derived, rfl⟩, by simp⟩
    | element =>
      obtain rfl := inside
      have whole := Derives.variadic derived
      exact ⟨outer, _, outside, by simpa using whole, List.append_assoc _ _ _⟩

theorem holds_step {lexeme : Lexeme} (holds : state.Holds read) (step : Step state lexeme last) :
    last.Holds (read ++ [lexeme]) := by
  cases step with
  | atom known => exact holds_deliver holds (.atom known)
  | «open» => exact ⟨read, holds, rfl⟩
  | endParams =>
    obtain ⟨outer, _, outside, ⟨own, derived, rfl⟩, rfl⟩ := holds
    exact ⟨outer, _, outside, ⟨own, derived, rfl⟩, by simp⟩
  | endMembers =>
    obtain ⟨outer, _, outside, ⟨own, derived, rfl⟩, rfl⟩ := holds
    rw [List.append_assoc]
    exact holds_deliver outside (.union derived)
  | callable =>
    obtain ⟨outer, outside, rfl⟩ := holds
    exact ⟨outer, outside, by simp⟩
  | union =>
    obtain ⟨outer, outside, rfl⟩ := holds
    exact ⟨outer, [.opening, .word "Union"], outside, ⟨[], .nil, rfl⟩, by simp⟩
  | variadic =>
    obtain ⟨outer, outside, rfl⟩ := holds
    exact ⟨outer, [.opening, .word "Variadic"], outside, rfl, by simp⟩
  | openParams =>
    obtain ⟨outer, outside, rfl⟩ := holds
    exact ⟨outer, [.opening, .word "Callable", .opening], outside, ⟨[], .nil, rfl⟩, by simp⟩
  | close =>
    obtain ⟨outer, own, outside, derived, rfl⟩ := holds
    rw [List.append_assoc]
    exact holds_deliver outside derived

theorem holds_steps {rest : List Lexeme} (steps : Steps state rest last) (holds : state.Holds read) :
    last.Holds (read ++ rest) := by
  induction steps generalizing read with
  | refl => rwa [List.append_nil]
  | cons first _ ih => simpa using ih (holds_step holds first)

/-- Reading completes a type exactly when the lexemes derive it. -/
theorem steps_complete : Steps (.type []) read (.complete ty) ↔ Derives read ty := by
  constructor
  · intro steps
    have start : (State.type []).Holds [] := rfl
    exact holds_steps steps start
  · intro derived
    exact steps_of_derives derived []

theorem int_mem_atoms : ("Int", Ty.int) ∈ atoms := by simp [atoms]

theorem exists_complete_deliver (contexts : List Context) (ty : Ty) :
    ∃ more last, Steps (deliver ty contexts) more (.complete last) := by
  induction contexts generalizing ty with
  | nil => exact ⟨[], ty, .refl⟩
  | cons context contexts ih =>
    cases context with
    | params before =>
      obtain ⟨more, last, steps⟩ := ih (.function (before ++ [ty]) .int)
      exact ⟨_, last, .cons .endParams (.cons (.atom int_mem_atoms) (.cons .close steps))⟩
    | result params =>
      obtain ⟨more, last, steps⟩ := ih (.function params ty)
      exact ⟨_, last, .cons .close steps⟩
    | members before =>
      obtain ⟨more, last, steps⟩ := ih (.join (before ++ [ty]))
      exact ⟨_, last, .cons .endMembers steps⟩
    | element =>
      obtain ⟨more, last, steps⟩ := ih (.variadic ty)
      exact ⟨_, last, .cons .close steps⟩

/-- Every state can still be led to a complete type. -/
theorem exists_complete (state : State) : ∃ more ty, Steps state more (.complete ty) := by
  cases state with
  | type contexts =>
    obtain ⟨more, ty, steps⟩ := exists_complete_deliver contexts .int
    exact ⟨_, ty, .cons (.atom int_mem_atoms) steps⟩
  | head contexts =>
    obtain ⟨more, ty, steps⟩ := exists_complete_deliver contexts (.join [])
    exact ⟨_, ty, .cons .union (.cons .endMembers steps)⟩
  | params contexts =>
    obtain ⟨more, ty, steps⟩ := exists_complete_deliver contexts (.function [] .int)
    exact ⟨_, ty, .cons .openParams (.cons .endParams (.cons (.atom int_mem_atoms) (.cons .close steps)))⟩
  | close ending inner contexts =>
    obtain ⟨more, ty, steps⟩ := exists_complete_deliver contexts inner
    exact ⟨_, ty, .cons .close steps⟩
  | complete ty => exact ⟨[], ty, .refl⟩

/-- A sentence ends where its end stands. -/
theorem exists_of_append_finish {more body : List Lexeme} (going : .finish ∉ read)
    (same : read ++ more = body ++ [.finish]) : ∃ rest, body = read ++ rest ∧ more = rest ++ [.finish] := by
  rcases List.append_eq_append_iff.1 same with ⟨rest, rfl, ends⟩ | ⟨rest, rfl, ends⟩
  · exact ⟨rest, rfl, ends⟩
  · rcases List.append_eq_singleton_iff.1 ends.symm with ⟨rfl, rfl⟩ | ⟨rfl, -⟩
    · exact ⟨[], by simp, rfl⟩
    · simp at going

/-- Some annotation begins with the lexemes that reading goes through, and with no others. -/
theorem possible_iff (going : .finish ∉ read) : Possible read ↔ ∃ state, Steps (.type []) read state := by
  constructor
  · rintro ⟨more, body, ty, same, derived⟩
    obtain ⟨rest, rfl, -⟩ := exists_of_append_finish going same
    obtain ⟨state, before, -⟩ := steps_append.1 (steps_complete.2 derived)
    exact ⟨state, before⟩
  · rintro ⟨state, steps⟩
    obtain ⟨more, ty, later⟩ := exists_complete state
    refine ⟨more ++ [.finish], read ++ more, ty, by simp, ?_⟩
    exact steps_complete.1 (steps_append.2 ⟨state, steps, later⟩)

theorem possible_finish (going : .finish ∉ read) : Possible (read ++ [.finish]) ↔ ∃ ty, Derives read ty := by
  constructor
  · rintro ⟨more, body, ty, same, derived⟩
    have plain := (steps_complete.2 derived).ne_finish
    rw [List.append_assoc] at same
    obtain ⟨rest, rfl, ends⟩ := exists_of_append_finish going same
    cases rest with
    | nil => exact ⟨ty, by simpa using derived⟩
    | cons first rest =>
      cases ends
      simp at plain
  · rintro ⟨ty, derived⟩
    exact ⟨[], read, ty, by simp, derived⟩

/-- The states in which a word is expected. -/
def State.TakesName (state : State) : Prop := ∃ contexts, state = .type contexts ∨ state = .head contexts

theorem expectsName_iff (steps : Steps (.type []) read state) : ExpectsName read ↔ state.TakesName := by
  constructor
  · rintro ⟨name, -, possible⟩
    have going : .finish ∉ read ++ [.word name] := by simpa using steps.ne_finish
    obtain ⟨last, longer⟩ := (possible_iff going).1 possible
    obtain ⟨between, before, step⟩ := steps_append.1 longer
    obtain rfl := steps.unique before
    cases steps_singleton.1 step with
    | atom => exact ⟨_, .inl rfl⟩
    | callable | union | variadic => exact ⟨_, .inr rfl⟩
  · intro takes
    have possible {name : String} {last : State} (step : Step state (.word name) last) :
        Possible (read ++ [.word name]) := (possible_iff (steps.snoc step).ne_finish).2 ⟨last, steps.snoc step⟩
    obtain ⟨contexts, rfl | rfl⟩ := takes
    · exact ⟨"Int", by decide, possible (.atom int_mem_atoms)⟩
    · exact ⟨"Union", by decide, possible .union⟩

end States

section Failures

variable {state : State} {token : Token} {tokens : List Token} {fault : Fault}

/-- A refused token is where the fault is, and only a word can be an unknown name. -/
theorem feed_eq_error (failed : feed state token = .error fault) :
    fault.position? = some token.position ∧
      ∀ name, fault = .unknownType token.position name ↔ token.lexeme = .word name ∧ state.TakesName := by
  obtain ⟨lexeme, position⟩ := token
  unfold feed at failed
  split at failed
  · next named =>
    cases named
    split at failed <;> cases failed
    simp [Fault.position?, State.TakesName]
  · cases failed
  · cases failed
  · cases failed
  · next named =>
    cases named
    split at failed <;> cases failed
    simp [Fault.position?, State.TakesName]
  · cases failed
  · cases failed
  · next _ _ noAtom _ _ _ noHead _ _ =>
    cases failed
    refine ⟨rfl, fun name => ⟨by rintro ⟨⟩, ?_⟩⟩
    rintro ⟨rfl, contexts, rfl | rfl⟩
    · exact (noAtom contexts name rfl rfl).elim
    · exact (noHead contexts name rfl rfl).elim

theorem foldlM_eq_error (failed : tokens.foldlM feed state = .error fault) :
    ∃ before token after between, tokens = before ++ token :: after ∧
      Steps state (lexemes before) between ∧ feed between token = .error fault := by
  induction tokens generalizing state with
  | nil => cases failed
  | cons token tokens ih =>
    rw [List.foldlM_cons] at failed
    cases fed : feed state token with
    | error other =>
      rw [fed] at failed
      cases failed
      exact ⟨[], token, tokens, state, rfl, .refl, fed⟩
    | ok next =>
      rw [fed] at failed
      obtain ⟨before, refused, after, between, rfl, steps, here⟩ := ih failed
      exact ⟨token :: before, refused, after, between, rfl, .cons (feed_eq_ok.1 fed) steps, here⟩

theorem impossible_of_refused {before : List Token} (steps : Steps (.type []) (lexemes before) state)
    (going : token.lexeme ≠ .finish) (refused : feed state token = .error fault) :
    ¬ Possible (lexemes before ++ [token.lexeme]) := by
  have plain : .finish ∉ lexemes before ++ [token.lexeme] := by simpa [steps.ne_finish] using going.symm
  rw [possible_iff plain]
  rintro ⟨last, longer⟩
  obtain ⟨between, before, step⟩ := steps_append.1 longer
  obtain rfl := steps.unique before
  rw [feed_of_step (steps_singleton.1 step)] at refused
  cases refused

theorem Possible.prefix_of {earlier : List Token} (possible : Possible (lexemes tokens))
    (before : earlier <+: tokens) : Possible (lexemes earlier) := by
  obtain ⟨rest, rfl⟩ := before
  obtain ⟨more, sentence⟩ := possible
  exact ⟨lexemes rest ++ more, by simpa [lexemes] using sentence⟩

theorem firstImpossible {before : List Token} (here : before ++ [token] <+: tokens)
    (steps : Steps (.type []) (lexemes before) state)
    (impossible : ¬ Possible (lexemes before ++ [token.lexeme])) : FirstImpossible tokens before token := by
  have possible := (possible_iff steps.ne_finish).2 ⟨state, steps⟩
  exact ⟨here, fun _ earlier => possible.prefix_of earlier, by simpa [lexemes] using impossible⟩

end Failures

section Whole

variable {text : String} {fault : Fault} {ty : Ty}

theorem read_eq_ok : read text = .ok ty ↔ Derives (lexemes (tokensFrom 1 [] text.toList)) ty := by
  rw [← steps_complete, ← foldlM_eq_ok]
  unfold read
  rw [Sequencing.except_bind_eq_ok]
  constructor
  · rintro ⟨state, fed, finished⟩
    cases state with
    | complete found =>
      cases finished
      exact fed
    | _ => cases finished
  · intro fed
    exact ⟨_, fed, rfl⟩

/-- Reading fails at a token that it refuses, or at the end if the type is not complete. -/
theorem read_eq_error (failed : read text = .error fault) :
    (∃ before token after state, tokensFrom 1 [] text.toList = before ++ token :: after ∧
      Steps (.type []) (lexemes before) state ∧ feed state token = .error fault) ∨
    ∃ state, Steps (.type []) (lexemes (tokensFrom 1 [] text.toList)) state ∧
      (∀ ty, state ≠ .complete ty) ∧ fault = .expected (text.length + 1) state.what .finish := by
  unfold read at failed
  cases fed : (tokensFrom 1 [] text.toList).foldlM feed (.type []) with
  | error other =>
    rw [fed] at failed
    cases failed
    exact .inl (foldlM_eq_error fed)
  | ok state =>
    rw [fed] at failed
    refine .inr ⟨state, foldlM_eq_ok.1 fed, ?_⟩
    cases state with
    | complete => cases failed
    | _ =>
      cases failed
      exact ⟨by rintro _ ⟨⟩, rfl⟩

end Whole

/-- Reading accepts exactly the grammar and refuses the first impossible token. The split of
a text into tokens is unique; reading gives the type that they derive; and otherwise the
fault is at the first token, the end being the last, with which no annotation begins. It is
an unknown name exactly when that token is a word where a name is expected. -/
theorem read_exact (text : String) :
    ∃ tokens, (∀ others, Splits 1 text.toList others ↔ others = tokens) ∧
      (∀ ty, read text = .ok ty ↔ Derives (lexemes tokens) ty) ∧
      ∀ fault, read text = .error fault →
        ∃ before token, FirstImpossible (tokens ++ [⟨.finish, text.length + 1⟩]) before token ∧
          fault.position? = some token.position ∧
          ∀ name, fault = .unknownType token.position name ↔
            token.lexeme = .word name ∧ ExpectsName (lexemes before) := by
  refine ⟨tokensFrom 1 [] text.toList, fun _ => splits_iff, fun _ => read_eq_ok, ?_⟩
  intro fault failed
  have going := (splits_iff.2 rfl : Splits 1 text.toList _).ne_finish
  rcases read_eq_error failed with ⟨before, token, after, state, split, steps, refused⟩ |
    ⟨state, steps, unfinished, rfl⟩
  · rw [split] at going ⊢
    have inside : token.lexeme ≠ .finish := by
      intro ends
      simp [lexemes, ends] at going
    obtain ⟨place, unknown⟩ := feed_eq_error refused
    have here : before ++ [token] <+: before ++ token :: after ++ [⟨.finish, text.length + 1⟩] :=
      ⟨after ++ [⟨.finish, text.length + 1⟩], by simp⟩
    refine ⟨before, token, firstImpossible here steps ?_, place, ?_⟩
    · exact impossible_of_refused steps inside refused
    · simpa only [expectsName_iff steps] using unknown
  · have impossible : ¬ Possible (lexemes (tokensFrom 1 [] text.toList) ++ [.finish]) := by
      rw [possible_finish going]
      rintro ⟨ty, derived⟩
      exact unfinished ty (steps.unique (steps_complete.2 derived))
    refine ⟨_, ⟨.finish, text.length + 1⟩, firstImpossible List.prefix_rfl steps impossible, rfl, ?_⟩
    simp

end CheckedLisp.TypeText
