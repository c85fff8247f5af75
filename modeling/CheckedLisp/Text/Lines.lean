/-! A text is divided into lines at its newlines. -/
namespace CheckedLisp.Text

/-- The pieces between newlines. What follows the last newline is a line too, even when
it is empty. -/
def lines : List Char → List (List Char)
  | [] => [[]]
  | c :: cs =>
    match lines cs with
    | [] => [[c]]
    | line :: rest => if c = '\n' then [] :: line :: rest else (c :: line) :: rest

def dropTrailing (c : Char) (cs : List Char) : List Char :=
  (cs.reverse.dropWhile (· = c)).reverse

end CheckedLisp.Text
