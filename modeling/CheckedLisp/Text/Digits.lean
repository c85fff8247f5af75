/-! Numbers are written in decimal digits. -/
namespace CheckedLisp.Text

/-- One or more of the digits `0` to `9`. -/
def isDigits (cs : List Char) : Bool := !cs.isEmpty && cs.all Char.isDigit

end CheckedLisp.Text
