import CheckedLisp.Ty.Union
import CheckedLisp.Value.Basic

/-! A value inhabits the type of its own kind, `any`, and every union with a member that it
inhabits. Types of data are `any` and what the five ground types make by joins; joining loses no
value of a type of data, because there the text of a member says which it is. -/
namespace CheckedLisp

/-- Function types have no values here: the fragment in question passes none. -/
inductive Value.Inhabits : Value → Ty → Prop
  | unit : Inhabits .unit .unit
  | bool (b : Bool) : Inhabits (.bool b) .bool
  | int (n : Int64) : Inhabits (.int n) .int
  | float (x : Float) : Inhabits (.float x) .float
  | string (s : String) : Inhabits (.string s) .string
  | any (v : Value) : Inhabits v .any
  | union {v : Value} {member : Ty} {members : List Ty} :
      member ∈ members → Inhabits v member → Inhabits v (.union members)

namespace Ty

def isGround : Ty → Bool
  | unit | bool | int | float | string => true
  | _ => false

def isData : Ty → Bool
  | any => true
  | union members => members.all isGround
  | ty => ty.isGround

theorem isData_of_isGround {ty : Ty} (ground : ty.isGround) : ty.isData := by
  cases ty <;> simp_all [isGround, isData]

theorem isGround_of_mem_members {ty member : Ty} (data : ty.isData) (definite : ty.isAny = false)
    (inside : member ∈ ty.members) : member.isGround := by
  cases ty with
  | any => cases definite
  | union parts => exact List.all_eq_true.1 data member inside
  | _ => simp_all [isData, isGround, members]

/-- A value of a type of data that is not `any` inhabits one of its ground members. -/
theorem exists_member {v : Value} {ty : Ty} (data : ty.isData) (definite : ty.isAny = false)
    (inhabits : v.Inhabits ty) : ∃ member ∈ ty.members, v.Inhabits member := by
  cases inhabits with
  | any => cases definite
  | union inside holds => exact ⟨_, inside, holds⟩
  | unit => exact ⟨_, List.mem_singleton_self _, .unit⟩
  | bool b => exact ⟨_, List.mem_singleton_self _, .bool b⟩
  | int n => exact ⟨_, List.mem_singleton_self _, .int n⟩
  | float x => exact ⟨_, List.mem_singleton_self _, .float x⟩
  | string s => exact ⟨_, List.mem_singleton_self _, .string s⟩

theorem eq_of_text {a b : Ty} (left : a.isGround) (right : b.isGround) (same : a.text = b.text) :
    a = b := by
  cases a <;> cases left <;> cases b <;> cases right <;> simp [text] at same ⊢

theorem mem_insert_of_eq {ty member : Ty} {found : List Ty} (same : member = ty) :
    member ∈ insert ty found := by
  subst same
  induction found with
  | nil => simp [insert]
  | cons first rest ih =>
    unfold insert
    split
    · simp
    · split
      · simp
      · simp [ih]

/-- Only a member with the same text gives way, and that is the type itself. -/
theorem mem_insert_of_mem {ty member : Ty} {found : List Ty} (ground : ty.isGround)
    (allGround : ∀ m ∈ found, m.isGround) (inside : member ∈ found) : member ∈ insert ty found := by
  induction found with
  | nil => cases inside
  | cons first rest ih =>
    have firstGround := allGround first List.mem_cons_self
    unfold insert
    split
    · next same =>
      rcases List.mem_cons.1 inside with rfl | later
      · exact eq_of_text ground firstGround same ▸ List.mem_cons_self
      · exact List.mem_cons_of_mem _ later
    · split
      · exact List.mem_cons_of_mem _ inside
      · rcases List.mem_cons.1 inside with rfl | later
        · exact List.mem_cons_self
        · exact List.mem_cons_of_mem _ (ih (fun m h => allGround m (List.mem_cons_of_mem _ h)) later)

theorem mem_of_mem_insert {ty member : Ty} {found : List Ty} (inside : member ∈ insert ty found) :
    member = ty ∨ member ∈ found := by
  induction found with
  | nil => simpa [insert] using inside
  | cons first rest ih =>
    unfold insert at inside
    split at inside
    · rcases List.mem_cons.1 inside with same | later
      · exact .inl same
      · exact .inr (List.mem_cons_of_mem _ later)
    · split at inside
      · rcases List.mem_cons.1 inside with same | later
        · exact .inl same
        · exact .inr later
      · rcases List.mem_cons.1 inside with rfl | later
        · exact .inr List.mem_cons_self
        · rcases ih later with same | earlier
          · exact .inl same
          · exact .inr (List.mem_cons_of_mem _ earlier)

theorem isGround_of_mem_insert {ty : Ty} {found : List Ty} (ground : ty.isGround)
    (allGround : ∀ m ∈ found, m.isGround) : ∀ m ∈ insert ty found, m.isGround := by
  intro m inside
  rcases mem_of_mem_insert inside with rfl | earlier
  · exact ground
  · exact allGround m earlier

/-- Inserting one ground type after the other keeps all of them. -/
theorem foldl_insert {tys found : List Ty} (ground : ∀ m ∈ tys, m.isGround)
    (allGround : ∀ m ∈ found, m.isGround) :
    (∀ m, m ∈ tys ∨ m ∈ found → m ∈ tys.foldl (fun found ty => insert ty found) found) ∧
      ∀ m ∈ tys.foldl (fun found ty => insert ty found) found, m.isGround := by
  induction tys generalizing found with
  | nil => exact ⟨fun m inside => by simpa using inside, by simpa using allGround⟩
  | cons ty tys ih =>
    have first := ground ty List.mem_cons_self
    obtain ⟨kept, allKept⟩ := ih (fun m h => ground m (List.mem_cons_of_mem _ h))
      (isGround_of_mem_insert first allGround)
    refine ⟨?_, allKept⟩
    rintro m (inside | inside)
    · rcases List.mem_cons.1 inside with same | later
      · exact kept m (.inr (mem_insert_of_eq same))
      · exact kept m (.inl later)
    · exact kept m (.inr (mem_insert_of_mem first allGround inside))

theorem inhabits_ofMembers {v : Value} {member : Ty} {found : List Ty} (inside : member ∈ found)
    (inhabits : v.Inhabits member) : v.Inhabits (ofMembers found) := by
  match found, inside with
  | [_], inside => exact List.mem_singleton.1 inside ▸ inhabits
  | _ :: _ :: _, inside => exact .union inside inhabits

theorem isData_ofMembers {found : List Ty} (ground : ∀ m ∈ found, m.isGround) :
    (ofMembers found).isData := by
  match found, ground with
  | [], _ => rfl
  | [ty], ground => exact isData_of_isGround (ground ty List.mem_cons_self)
  | _ :: _ :: _, ground => exact List.all_eq_true.2 ground

theorem isGround_of_mem_flatMap {tys : List Ty} (data : ∀ ty ∈ tys, ty.isData)
    (definite : tys.any isAny = false) : ∀ m ∈ tys.flatMap members, m.isGround := by
  intro m inside
  obtain ⟨ty, member, inTy⟩ := List.mem_flatMap.1 inside
  exact isGround_of_mem_members (data ty member) (by simpa using List.any_eq_false.1 definite ty member)
    inTy

theorem isData_join {tys : List Ty} (data : ∀ ty ∈ tys, ty.isData) : (join tys).isData := by
  cases definite : tys.any isAny with
  | true => simp [join, definite, isData]
  | false =>
    simp only [join, definite, Bool.false_eq_true, if_false]
    exact isData_ofMembers (foldl_insert (isGround_of_mem_flatMap data definite) (by simp)).2

/-- A join has all values of the types it joins. -/
theorem inhabits_join {v : Value} {ty : Ty} {tys : List Ty} (data : ∀ ty ∈ tys, ty.isData)
    (inside : ty ∈ tys) (inhabits : v.Inhabits ty) : v.Inhabits (join tys) := by
  cases definite : tys.any isAny with
  | true => simpa [join, definite] using Value.Inhabits.any v
  | false =>
    have notAny : ty.isAny = false := by simpa using List.any_eq_false.1 definite ty inside
    obtain ⟨member, inTy, holds⟩ := exists_member (data ty inside) notAny inhabits
    have inAll : member ∈ tys.flatMap members := List.mem_flatMap.2 ⟨ty, inside, inTy⟩
    simp only [join, definite, Bool.false_eq_true, if_false]
    exact inhabits_ofMembers
      ((foldl_insert (isGround_of_mem_flatMap data definite) (by simp)).1 member (.inl inAll)) holds

end Ty

end CheckedLisp
