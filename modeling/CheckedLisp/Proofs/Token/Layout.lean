import CheckedLisp.Proofs.Source.Position
import CheckedLisp.Proofs.Token.Classification

/-! A layout cuts a text into blanks, comments, lexemes and pieces that are none of these, and gives
each lexeme its token with the places of its first and last characters. The tokens of a layout stand
one behind the other, and where no piece is left out, what no token covers is a blank or belongs to
a comment. -/
namespace CheckedLisp

namespace Span

/-- The place is neither before nor behind the span. -/
def Covers (span : Span) (p : Position) : Prop := span.start ≤ p ∧ p ≤ span.stop

end Span

namespace Lexical

/-- `Decodes body text`: between quotes, `body` stands for `text`. A mark that is no escape
stands for itself. -/
inductive Decodes : List Char → List Char → Prop
  | nil : Decodes [] []
  | plain {c body text} (notQuote : c ≠ '"') (notSlash : c ≠ '\\') (others : Decodes body text) :
    Decodes (c :: body) (c :: text)
  | escape {mark c body text} (known : (mark, c) ∈ escapes) (others : Decodes body text) :
    Decodes ('\\' :: mark :: body) (c :: text)
  | unknown {mark body text} (unknown : ∀ c, (mark, c) ∉ escapes) (others : Decodes body text) :
    Decodes ('\\' :: mark :: body) (mark :: text)

/-- A lexeme, or a string with escapes that are not known. -/
inductive Written : List Char → Token.Kind → Prop
  | lexeme {text kind} (proper : Lexeme text kind) : Written text kind
  | string {body text} (decoded : Decodes body text) :
    Written ('"' :: (body ++ ['"'])) (.atom (.string (String.ofList text)))

def Delimits (c? : Option Char) : Prop := ∀ c ∈ c?, isDelimiter c

/-- The span from the first to the last character of `lexeme` behind `before`. -/
def spanOf (before lexeme : List Char) : Span := ⟨.behind before, .behind (before ++ lexeme.dropLast)⟩

/-- `Layout text clean before rest tokens`: cut up to `rest`, the text has these tokens, the
latest first. If the cut is clean, no piece of it was left out. -/
inductive Layout (text : List Char) : Bool → List Char → List Char → List Token → Prop
  | start : Layout text true [] text []
  | blank {clean before c rest tokens} (laid : Layout text clean before (c :: rest) tokens)
    (blank : Text.isBlank c) : Layout text clean (before ++ [c]) rest tokens
  | comment {clean before body rest tokens} (laid : Layout text clean before (';' :: (body ++ rest)) tokens)
    (oneLine : '\n' ∉ body) : Layout text clean (before ++ ';' :: body) rest tokens
  | malformed {clean before piece rest tokens} (laid : Layout text clean before (piece ++ rest) tokens) :
    Layout text false (before ++ piece) rest tokens
  | token {clean before lexeme rest tokens kind} (laid : Layout text clean before (lexeme ++ rest) tokens)
    (written : Written lexeme kind)
    (apart : isWord kind → Delimits before.getLast? ∧ Delimits rest.head?) :
    Layout text clean (before ++ lexeme) rest (⟨kind, spanOf before lexeme⟩ :: tokens)

section Lexemes

variable {lexeme : List Char} {kind : Token.Kind}

/-- A lexeme does not end in a newline or a carriage return. -/
theorem Written.exists_last (written : Written lexeme kind) :
    ∃ init last, lexeme = init ++ [last] ∧ last ≠ '\n' ∧ last ≠ '\r' := by
  cases written with
  | string => exact ⟨_, '"', (List.cons_append ..).symm, by decide, by decide⟩
  | lexeme proper =>
    cases proper with
    | opening => exact ⟨[], '(', rfl, by decide, by decide⟩
    | closing => exact ⟨[], ')', rfl, by decide, by decide⟩
    | quote => exact ⟨[], '\'', rfl, by decide, by decide⟩
    | string => exact ⟨_, '"', (List.cons_append ..).symm, by decide, by decide⟩
    | word spelled =>
      have plain := spelled.plain _ (List.getLast_mem spelled.ne_nil)
      refine ⟨_, _, (List.dropLast_concat_getLast spelled.ne_nil).symm, ?_, ?_⟩
      all_goals
        intro same
        rw [same] at plain
        cases plain

theorem Written.ne_finish (written : Written lexeme kind) : kind ≠ .finish := by
  rcases written with ⟨⟨⟩⟩ | ⟨⟩ <;> simp

/-- The end of a span is the place in front of the place behind its lexeme. -/
theorem Written.spanOf_eq (written : Written lexeme kind) (before : List Char) :
    spanOf before lexeme = .upTo (.behind before) (.behind (before ++ lexeme)) := by
  obtain ⟨init, last, rfl, notNewline, -⟩ := written.exists_last
  rw [spanOf, Span.upTo, ← List.append_assoc, Position.before_behind_snoc _ notNewline, List.dropLast_concat]

theorem start_le_stop_spanOf (before lexeme : List Char) :
    (spanOf before lexeme).start ≤ (spanOf before lexeme).stop :=
  Position.behind_le before lexeme.dropLast

theorem stop_spanOf_lt (written : Written lexeme kind) (before : List Char) :
    (spanOf before lexeme).stop < .behind (before ++ lexeme) := by
  obtain ⟨init, last, rfl, -⟩ := written.exists_last
  rw [spanOf, List.dropLast_concat, ← List.append_assoc]
  exact Position.behind_lt _ (by simp)

end Lexemes

namespace Layout

variable {text before rest : List Char} {clean : Bool} {tokens : List Token}

theorem text_eq (laid : Layout text clean before rest tokens) : text = before ++ rest := by
  induction laid with
  | start => rfl
  | blank _ _ ih | comment _ _ ih | malformed _ ih | token _ _ _ ih => simp [ih]

/-- All tokens are behind the start and before the place that has been reached. -/
theorem stop_lt (laid : Layout text clean before rest tokens) :
    ∀ token ∈ tokens, token.span.start ≤ token.span.stop ∧ token.span.stop < .behind before := by
  induction laid with
  | start => simp
  | blank _ _ ih | comment _ _ ih | malformed _ ih =>
    intro token inside
    exact ⟨(ih token inside).1, Position.lt_of_lt_of_le (ih token inside).2 (Position.behind_le _ _)⟩
  | token _ written _ ih =>
    intro token inside
    rcases List.mem_cons.1 inside with rfl | earlier
    · exact ⟨start_le_stop_spanOf _ _, stop_spanOf_lt written _⟩
    · exact ⟨(ih token earlier).1, Position.lt_of_lt_of_le (ih token earlier).2 (Position.behind_le _ _)⟩

theorem pairwise (laid : Layout text clean before rest tokens) :
    tokens.Pairwise fun later earlier => earlier.span.stop < later.span.start := by
  induction laid with
  | start => exact .nil
  | blank _ _ ih | comment _ _ ih | malformed _ ih => exact ih
  | token laid _ _ ih => exact .cons (fun earlier inside => (laid.stop_lt earlier inside).2) ih

/-- Every token stands where its lexeme does. -/
theorem exists_lexeme (laid : Layout text clean before rest tokens) :
    ∀ token ∈ tokens, ∃ outer lexeme after, text = outer ++ (lexeme ++ after) ∧ Written lexeme token.kind ∧
      token.span = spanOf outer lexeme ∧
      (isWord token.kind → Delimits outer.getLast? ∧ Delimits after.head?) := by
  induction laid with
  | start => simp
  | blank _ _ ih | comment _ _ ih | malformed _ ih => exact ih
  | token laid written apart ih =>
    rintro token inside
    rcases List.mem_cons.1 inside with rfl | earlier
    · exact ⟨_, _, _, laid.text_eq, written, rfl, apart⟩
    · exact ih token earlier

end Layout

/-- No token covers the place. -/
def Uncovered (tokens : List Token) (p : Position) : Prop := ∀ token ∈ tokens, ¬ token.span.Covers p

/-- The character `c` behind `before` is a blank, or on its line a semicolon outside of all
tokens comes first. -/
def Trivial (tokens : List Token) (before : List Char) (c : Char) : Prop :=
  Text.isBlank c ∨ ∃ front body, before ++ [c] = front ++ ';' :: body ∧ '\n' ∉ body ∧
    Uncovered tokens (.behind front)

/-- A place in a text of two parts lies in the first or in the second. -/
theorem append_eq_cases {first second outer after : List Char} {c : Char}
    (same : first ++ second = outer ++ c :: after) :
    (∃ between, first = outer ++ c :: between) ∨
      ∃ between, outer = first ++ between ∧ second = between ++ c :: after := by
  rcases List.append_eq_append_iff.1 same with ⟨between, rfl, inside⟩ | ⟨between, rfl, inside⟩
  · exact .inr ⟨between, rfl, inside⟩
  · cases between with
    | nil => exact .inr ⟨[], by simp, by simpa using inside.symm⟩
    | cons d between =>
      cases inside
      exact .inl ⟨between, rfl⟩

namespace Layout

variable {text before rest outer after : List Char} {tokens : List Token} {c : Char}

/-- A token that stands behind a trivial character leaves it trivial. -/
theorem trivial_cons {token : Token} (behind : .behind (outer ++ [c]) ≤ token.span.start)
    (known : Trivial tokens outer c) : Trivial (token :: tokens) outer c := by
  rcases known with blank | ⟨front, body, same, oneLine, uncovered⟩
  · exact .inl blank
  · refine .inr ⟨front, body, same, oneLine, List.forall_mem_cons.2 ⟨?_, uncovered⟩⟩
    rintro ⟨start, -⟩
    have less : Position.behind front < token.span.start := by
      rw [same] at behind
      exact Position.lt_of_lt_of_le (Position.behind_lt front (by simp)) behind
    exact Position.not_le_of_lt less start

theorem uncovered_behind {clean : Bool} (laid : Layout text clean before rest tokens) :
    Uncovered tokens (.behind before) := by
  rintro token inside ⟨-, stop⟩
  exact Position.not_le_of_lt (laid.stop_lt token inside).2 stop

/-- If no piece was left out, what no token covers is trivial. -/
theorem trivial_of_uncovered (laid : Layout text true before rest tokens) (split : before = outer ++ c :: after)
    (uncovered : Uncovered tokens (.behind outer)) : Trivial tokens outer c := by
  generalize isClean : true = clean at laid
  induction laid generalizing outer after with
  | start => simp at split
  | blank laid blank ih =>
    rcases append_eq_cases split with ⟨between, here⟩ | ⟨between, rfl, last⟩
    · exact ih here uncovered isClean
    · have only : c ∈ between ++ c :: after := by simp
      rw [← last, List.mem_singleton] at only
      rw [only]
      exact .inl blank
  | @comment _ before body _ _ laid oneLine ih =>
    rcases append_eq_cases split with ⟨between, here⟩ | ⟨between, rfl, last⟩
    · exact ih here uncovered isClean
    · right
      cases between with
      | nil =>
        cases last
        exact ⟨before, [], by simp, by simp, laid.uncovered_behind⟩
      | cons d between =>
        rw [List.cons_append] at last
        obtain ⟨rfl, rfl⟩ := List.cons.inj last
        refine ⟨before, between ++ [c], by simp, ?_, laid.uncovered_behind⟩
        simp only [List.mem_append, List.mem_cons, not_or] at oneLine
        simp [oneLine]
  | malformed => cases isClean
  | @token _ before lexeme _ _ _ laid written apart ih =>
    obtain ⟨here, earlier⟩ := List.forall_mem_cons.1 uncovered
    rcases append_eq_cases split with ⟨between, rfl⟩ | ⟨between, rfl, rfl⟩
    · apply trivial_cons _ (ih rfl earlier isClean)
      have reached := Position.behind_le (outer ++ [c]) between
      rwa [List.append_assoc] at reached
    · refine absurd ⟨Position.behind_le _ _, ?_⟩ here
      have reached := Position.behind_le (before ++ between) (c :: after).dropLast
      rwa [List.append_assoc, ← List.dropLast_append_of_ne_nil (by simp)] at reached

end Layout

section Lines

variable {src : Source} {outer lexeme after : List Char} {kind : Token.Kind}

/-- A lexeme that starts and ends on one line is found there between its columns. -/
theorem slice_of_oneLine (split : src.text.toList = outer ++ (lexeme ++ after)) (written : Written lexeme kind)
    (oneLine : (spanOf outer lexeme).start.line = (spanOf outer lexeme).stop.line) :
    ∃ text, src.line (spanOf outer lexeme).start.line = some text ∧
      (text.toList.drop ((spanOf outer lexeme).start.column - 1)).take
        ((spanOf outer lexeme).stop.column + 1 - (spanOf outer lexeme).start.column) = lexeme := by
  obtain ⟨init, last, rfl, notNewline, notReturn⟩ := written.exists_last
  have start : (spanOf outer (init ++ [last])).start = .behind outer := rfl
  have stop : (spanOf outer (init ++ [last])).stop = .behind (outer ++ init) := by simp [spanOf]
  rw [start, stop] at oneLine ⊢
  have inside : '\n' ∉ init := by
    rw [← List.count_eq_zero]
    simpa [Position.behind] using oneLine
  have width : (Position.behind (outer ++ init)).column + 1 - (Position.behind outer).column =
      (init ++ [last]).length := by
    simp only [Position.behind, Text.lastLine_append inside, List.length_append, List.length_singleton]
    omega
  have whole : (init ++ [last] ++ after).takeWhile (· ≠ '\n') = init ++ [last] ++ after.takeWhile (· ≠ '\n') := by
    apply List.takeWhile_append_of_pos
    intro c found
    simp only [decide_eq_true_eq]
    rintro rfl
    simp [inside, Ne.symm notNewline] at found
  refine ⟨_, Source.line_behind split, ?_⟩
  have first : (Position.behind outer).column - 1 = (Text.lastLine outer).length := rfl
  rw [width, first, whole, ← List.append_assoc, ← List.append_assoc, Text.dropTrailing_append notReturn,
    String.toList_ofList, List.append_assoc, List.append_assoc, List.drop_left, ← List.append_assoc, List.take_left]

end Lines

end Lexical

end CheckedLisp
