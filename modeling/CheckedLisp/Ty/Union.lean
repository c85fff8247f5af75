import CheckedLisp.Ty.Basic

/-! The join of types is the least type with all of them as members. Members are told apart by their
texts; of two with the same text the later stays. -/
namespace CheckedLisp.Ty

/-- The members of a union, or the type itself. -/
def members : Ty → List Ty
  | union members => members
  | ty => [ty]

/-- Inserts by text, and replaces a member with the same text. -/
def insert (ty : Ty) : List Ty → List Ty
  | [] => [ty]
  | member :: rest =>
    if ty.text = member.text then ty :: rest
    else if ty.text < member.text then ty :: member :: rest
    else member :: insert ty rest

/-- No member is unit, and a single member is itself. -/
def ofMembers : List Ty → Ty
  | [] => unit
  | [member] => member
  | members => union members

def join (tys : List Ty) : Ty :=
  if tys.any isAny then any
  else ofMembers ((tys.flatMap members).foldl (fun found ty => insert ty found) [])

end CheckedLisp.Ty
