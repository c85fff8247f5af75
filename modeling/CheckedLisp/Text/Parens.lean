/-! Lists are written with their parts in parentheses. -/
namespace CheckedLisp.Text

/-- The parts, separated by single spaces, in parentheses. -/
def parens (parts : List String) : String := "(" ++ " ".intercalate parts ++ ")"

end CheckedLisp.Text
