import Mathlib.Data.List.Induction
import CheckedLisp.Source.File
import CheckedLisp.Source.Span

/-! The place of a character is counted from the characters before it: a line for each newline, a
column for each character since the last of them. Reading a character moves the place on by that
character, and the line of a place is the one that the source gives back. -/
namespace CheckedLisp

namespace Text

variable {c : Char} {cs before rest : List Char}

/-- What stands behind the last newline. -/
def lastLine (cs : List Char) : List Char := (cs.reverse.takeWhile (· ≠ '\n')).reverse

theorem lastLine_newline (cs : List Char) : lastLine (cs ++ ['\n']) = [] := by simp [lastLine]

theorem lastLine_append (oneLine : '\n' ∉ cs) : lastLine (before ++ cs) = lastLine before ++ cs := by
  rw [lastLine, List.reverse_append, List.takeWhile_append_of_pos, List.reverse_append, List.reverse_reverse]
  · rfl
  · intro c inside
    simp only [decide_eq_true_eq]
    rintro rfl
    exact oneLine (List.mem_reverse.1 inside)

theorem length_lastLine_le (cs : List Char) : (lastLine cs).length ≤ cs.length := by
  have taken := (List.takeWhile_sublist (l := cs.reverse) (· ≠ '\n')).length_le
  simpa [lastLine] using taken

/-- The first line goes up to the first newline. -/
theorem exists_lines (cs : List Char) : ∃ others, lines cs = cs.takeWhile (· ≠ '\n') :: others := by
  induction cs with
  | nil => exact ⟨[], rfl⟩
  | cons c cs ih =>
    obtain ⟨others, split⟩ := ih
    by_cases newline : c = '\n'
    · exact ⟨lines cs, by simp [lines, split, newline]⟩
    · exact ⟨others, by simp [lines, split, newline]⟩

theorem lines_append_newline (before cs : List Char) : lines (before ++ '\n' :: cs) = lines before ++ lines cs := by
  induction before with
  | nil =>
    obtain ⟨others, split⟩ := exists_lines cs
    simp [lines, split]
  | cons c before ih =>
    obtain ⟨others, split⟩ := exists_lines before
    rw [split] at ih
    by_cases newline : c = '\n' <;> simp [lines, ih, split, newline]

theorem length_lines (cs : List Char) : (lines cs).length = cs.count '\n' + 1 := by
  induction cs with
  | nil => rfl
  | cons c cs ih =>
    obtain ⟨others, split⟩ := exists_lines cs
    rw [split] at ih
    by_cases newline : c = '\n' <;> simp_all [lines]

/-- The line of a place has what stands before it there and what follows up to a newline. -/
theorem getElem?_lines (before rest : List Char) :
    (lines (before ++ rest))[before.count '\n']? = some (lastLine before ++ rest.takeWhile (· ≠ '\n')) := by
  induction before using List.reverseRecOn generalizing rest with
  | nil =>
    obtain ⟨others, split⟩ := exists_lines rest
    simp [split, lastLine]
  | append_singleton before c ih =>
    by_cases newline : c = '\n'
    · subst newline
      obtain ⟨others, split⟩ := exists_lines rest
      rw [List.append_assoc, List.singleton_append, lines_append_newline, lastLine_newline, split]
      have behind : (before ++ ['\n']).count '\n' = (lines before).length := by simp [length_lines]
      rw [behind, List.getElem?_append_right (Nat.le_refl _)]
      simp
    · have here := ih (c :: rest)
      rw [lastLine_append (by simpa using Ne.symm newline)]
      simpa [newline] using here

/-- Only what follows the last other character is dropped. -/
theorem dropTrailing_append {last : Char} (other : last ≠ c) (init cs : List Char) :
    dropTrailing c (init ++ [last] ++ cs) = init ++ [last] ++ dropTrailing c cs := by
  unfold dropTrailing
  rw [List.reverse_append, List.dropWhile_append]
  split
  · next none =>
    rw [List.isEmpty_iff] at none
    simp [none, other]
  · simp

end Text

namespace Position

instance : LT Position where
  lt p q := p.line < q.line ∨ p.line = q.line ∧ p.column < q.column

theorem lt_def (p q : Position) :
    p < q ↔ p.line < q.line ∨ p.line = q.line ∧ p.column < q.column := Iff.rfl

variable {p q r : Position} {c : Char} {cs before more : List Char}

theorem le_of_lt (less : p < q) : p ≤ q := by
  simp only [le_def, lt_def] at *
  omega

theorem not_le_of_lt (less : p < q) : ¬ q ≤ p := by
  simp only [le_def, lt_def] at *
  omega

theorem lt_of_lt_of_le (less : p < q) (le : q ≤ r) : p < r := by
  simp only [le_def, lt_def] at *
  omega

theorem lt_of_le_of_lt (le : p ≤ q) (less : q < r) : p < r := by
  simp only [le_def, lt_def] at *
  omega

theorem lt_advance (p : Position) (c : Char) : p < p.advance c := by
  unfold advance
  split <;> simp [lt_def]

/-- Where the character stands that comes behind `before`. -/
def behind (before : List Char) : Position := ⟨before.count '\n' + 1, (Text.lastLine before).length + 1⟩

/-- Reading a character moves the place on. -/
theorem behind_snoc (before : List Char) (c : Char) : behind (before ++ [c]) = (behind before).advance c := by
  by_cases newline : c = '\n'
  · subst newline
    simp [behind, advance, Text.lastLine_newline]
  · rw [behind, Text.lastLine_append (by simpa using Ne.symm newline)]
    simp [behind, advance, newline]

theorem behind_le (before more : List Char) : behind before ≤ behind (before ++ more) := by
  induction more using List.reverseRecOn with
  | nil => simpa using le_refl _
  | append_singleton more c ih =>
    rw [← List.append_assoc, behind_snoc]
    exact le_trans ih (le_advance _ c)

theorem behind_lt (before : List Char) (nonempty : more ≠ []) : behind before < behind (before ++ more) := by
  obtain ⟨c, more, rfl⟩ := List.exists_cons_of_ne_nil nonempty
  have first : behind before < behind (before ++ [c]) := by
    rw [behind_snoc]
    exact lt_advance _ c
  rw [← List.singleton_append, ← List.append_assoc]
  exact lt_of_lt_of_le first (behind_le _ more)

/-- The place before a character that is no newline is the place in front of it. -/
theorem before_behind_snoc (before : List Char) (other : c ≠ '\n') :
    (behind (before ++ [c])).before = behind before := by
  rw [behind_snoc]
  simp [advance, Position.before, behind, other]

theorem le_before_of_lt (less : p < q) : p ≤ q.before := by
  simp only [Position.before, le_def, lt_def] at *
  omega

/-- Neither count exceeds the bound. -/
def Within (bound : Nat) (p : Position) : Prop := p.line ≤ bound ∧ p.column ≤ bound

/-- A place is counted with at most one more than the characters before it. -/
theorem within_behind {bound : Nat} (room : before.length < bound) : (behind before).Within bound := by
  have newlines : before.count '\n' ≤ before.length := List.count_le_length
  have columns := Text.length_lastLine_le before
  exact ⟨by simp only [behind]; omega, by simp only [behind]; omega⟩

theorem within_before {bound : Nat} (within : p.Within bound) (positive : 0 < bound) : p.before.Within bound := by
  simp only [Within, Position.before] at *
  omega

end Position

/-- Both ends of the span are within the bound. -/
def Span.Within (bound : Nat) (span : Span) : Prop := span.start.Within bound ∧ span.stop.Within bound

/-- The line of a place, without the carriage returns at its end. -/
theorem Source.line_behind {src : Source} {before rest : List Char} (split : src.text.toList = before ++ rest) :
    src.line (Position.behind before).line = some (String.ofList
      (Text.dropTrailing '\r' (Text.lastLine before ++ rest.takeWhile (· ≠ '\n')))) := by
  rw [Position.behind, Source.line, split, Text.getElem?_lines]
  rfl

end CheckedLisp
