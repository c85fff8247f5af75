/-! Lines and columns count characters from one, and positions are ordered as they are read: by
line, then by column. A span includes both of its ends. -/
namespace CheckedLisp

structure Position where
  line : Nat
  column : Nat
  deriving DecidableEq, Repr

namespace Position

def first : Position := ⟨1, 1⟩

/-- The position after reading `c`. Only a newline starts a line. -/
def advance (p : Position) (c : Char) : Position :=
  if c = '\n' then ⟨p.line + 1, 1⟩ else ⟨p.line, p.column + 1⟩

/-- The last position of a text that ends just before `p`, kept on the line of `p`. -/
def before (p : Position) : Position := ⟨p.line, max (p.column - 1) 1⟩

instance : LE Position where
  le p q := p.line < q.line ∨ p.line = q.line ∧ p.column ≤ q.column

instance (p q : Position) : Decidable (p ≤ q) :=
  inferInstanceAs (Decidable (p.line < q.line ∨ p.line = q.line ∧ p.column ≤ q.column))

instance : Min Position := minOfLe
instance : Max Position := maxOfLe

theorem le_def (p q : Position) :
    p ≤ q ↔ p.line < q.line ∨ p.line = q.line ∧ p.column ≤ q.column := Iff.rfl

theorem le_refl (p : Position) : p ≤ p := .inr ⟨rfl, Nat.le_refl _⟩

theorem le_trans {p q r : Position} (first : p ≤ q) (second : q ≤ r) : p ≤ r := by
  simp only [le_def] at *
  omega

theorem le_advance (p : Position) (c : Char) : p ≤ p.advance c := by
  unfold advance
  split <;> simp [le_def]

end Position

structure Span where
  start : Position
  stop : Position
  deriving DecidableEq, Repr

namespace Span

def point (p : Position) : Span := ⟨p, p⟩

/-- The span of a text that starts at `start` and ends just before `next`. -/
def upTo (start next : Position) : Span := ⟨start, next.before⟩

/-- The smallest span that covers both. -/
def merge (a b : Span) : Span := ⟨min a.start b.start, max a.stop b.stop⟩

/-- A span is shown by where it starts. -/
def text (s : Span) : String := toString s.start.line ++ ":" ++ toString s.start.column

end Span

end CheckedLisp
