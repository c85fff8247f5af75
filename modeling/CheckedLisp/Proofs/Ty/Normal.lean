import CheckedLisp.Proofs.Ty.Inhabits
import CheckedLisp.Proofs.Sequencing
import CheckedLisp.Ty.Reader

/-! Joins sort their members by text and keep one for each text. In a normal type every union has
been joined in this way, at any depth. Joins of normal types and the types that are read from
annotations are normal; and a join that adds no text to a normal type is that type. -/
namespace CheckedLisp

namespace Ty

def isUnion : Ty → Bool
  | union _ => true
  | _ => false

/-- A type all of whose unions are joins of two or more members, and which leaves nothing
open. The signatures of its functions, the older ones as well, satisfy `rules`. -/
inductive NormalUnder (rules : Signature Ty → Prop) : Ty → Prop
  | unit : NormalUnder rules .unit
  | bool : NormalUnder rules .bool
  | int : NormalUnder rules .int
  | float : NormalUnder rules .float
  | string : NormalUnder rules .string
  | any : NormalUnder rules .any
  | callable {newest : Signature Ty} {older : List (Signature Ty)}
      (ruled : ∀ s ∈ newest :: older, rules s)
      (params : ∀ s ∈ newest :: older, ∀ param ∈ s.params, NormalUnder rules param)
      (ret : ∀ s ∈ newest :: older, NormalUnder rules s.ret) : NormalUnder rules (.callable newest older)
  | union {members : List Ty} (several : 2 ≤ members.length)
      (sorted : members.Pairwise (·.text < ·.text))
      (simple : ∀ member ∈ members, member.isAny = false ∧ member.isUnion = false)
      (each : ∀ member ∈ members, NormalUnder rules member) : NormalUnder rules (.union members)
  | variadic {element : Ty} (inner : NormalUnder rules element) : NormalUnder rules (.variadic element)

/-- Normal form alone. -/
abbrev Normal : Ty → Prop := NormalUnder fun _ => True

/-- Normal form, and calls have the types that signatures declare. -/
abbrev Declared : Ty → Prop := NormalUnder fun s => s.rule = .constant s.ret

theorem NormalUnder.mono {rules rules' : Signature Ty → Prop} (weaker : ∀ s, rules s → rules' s) {ty : Ty}
    (normal : ty.NormalUnder rules) : ty.NormalUnder rules' := by
  induction normal with
  | unit => exact .unit
  | bool => exact .bool
  | int => exact .int
  | float => exact .float
  | string => exact .string
  | any => exact .any
  | callable ruled _ _ params ret =>
    exact .callable (fun s member => weaker s (ruled s member)) params ret
  | union several sorted simple _ each => exact .union several sorted simple each
  | variadic _ inner => exact .variadic inner

theorem NormalUnder.normal {rules : Signature Ty → Prop} {ty : Ty} (normal : ty.NormalUnder rules) :
    ty.Normal :=
  normal.mono fun _ _ => trivial

def Sorted (members : List Ty) : Prop := members.Pairwise (·.text < ·.text)

/-- Inserts types one after the other. -/
def insertAll (tys found : List Ty) : List Ty := tys.foldl (fun found ty => insert ty found) found

theorem join_eq {tys : List Ty} (definite : tys.any isAny = false) :
    join tys = ofMembers (insertAll (tys.flatMap members) []) := by
  simp only [join, definite, Bool.false_eq_true, if_false, insertAll]

theorem text_mem_insert {ty : Ty} {found : List Ty} {text : String} :
    text ∈ (insert ty found).map Ty.text ↔ text = ty.text ∨ text ∈ found.map Ty.text := by
  induction found with
  | nil => simp [insert]
  | cons first rest ih =>
    simp only [insert]
    split
    · next same => simp [same]
    · split
      · simp
      · simp only [List.map_cons, List.mem_cons, ih]
        exact or_left_comm

theorem text_mem_insertAll {tys found : List Ty} {text : String} :
    text ∈ (insertAll tys found).map Ty.text ↔ text ∈ tys.map Ty.text ∨ text ∈ found.map Ty.text := by
  induction tys generalizing found with
  | nil => simp [insertAll]
  | cons ty tys ih =>
    have rest := @ih (insert ty found)
    simp only [insertAll, List.foldl_cons] at rest ⊢
    rw [rest, text_mem_insert, List.map_cons, List.mem_cons]
    exact or_left_comm.trans or_assoc.symm

theorem mem_of_mem_insertAll {tys found : List Ty} {member : Ty} (inside : member ∈ insertAll tys found) :
    member ∈ tys ∨ member ∈ found := by
  induction tys generalizing found with
  | nil => exact .inr inside
  | cons ty tys ih =>
    rcases @ih (insert ty found) inside with later | here
    · exact .inl (List.mem_cons_of_mem _ later)
    · rcases mem_of_mem_insert here with rfl | earlier
      · exact .inl List.mem_cons_self
      · exact .inr earlier

theorem sorted_insert {ty : Ty} {found : List Ty} (sorted : Sorted found) : Sorted (insert ty found) := by
  induction found with
  | nil => exact List.pairwise_singleton _ _
  | cons first rest ih =>
    obtain ⟨least, sortedRest⟩ := List.pairwise_cons.1 sorted
    simp only [insert]
    split
    · next same =>
      apply List.Pairwise.cons _ sortedRest
      intro member inside
      rw [same]
      exact least member inside
    · next other =>
      split
      · next before =>
        apply List.Pairwise.cons _ sorted
        intro member inside
        rcases List.mem_cons.1 inside with rfl | later
        · exact before
        · exact String.lt_trans before (least member later)
      · next notBefore =>
        apply List.Pairwise.cons _ (ih sortedRest)
        intro member inside
        rcases mem_of_mem_insert inside with rfl | later
        · exact Std.lt_of_le_of_ne (Std.not_lt.1 notBefore) (Ne.symm other)
        · exact least member later

theorem sorted_insertAll {tys found : List Ty} (sorted : Sorted found) : Sorted (insertAll tys found) := by
  induction tys generalizing found with
  | nil => exact sorted
  | cons ty tys ih => exact ih (sorted_insert sorted)

/-- In a sorted list a text tells its member. -/
theorem Sorted.eq_of_text {members : List Ty} (sorted : Sorted members) {a b : Ty} (left : a ∈ members)
    (right : b ∈ members) (same : a.text = b.text) : a = b := by
  induction sorted with
  | nil => cases left
  | @cons first rest least _ ih =>
    have apart : ∀ other ∈ rest, other.text ≠ first.text := by
      intro other inside equal
      exact String.lt_irrefl _ (equal ▸ least other inside)
    rcases List.mem_cons.1 left with rfl | leftRest <;> rcases List.mem_cons.1 right with rfl | rightRest
    · rfl
    · exact absurd same.symm (apart b rightRest)
    · exact absurd same (apart a leftRest)
    · exact ih leftRest rightRest

theorem Sorted.nodup {members : List Ty} (sorted : Sorted members) : members.Nodup := by
  apply List.Pairwise.imp _ sorted
  intro a b before same
  exact String.lt_irrefl _ (same ▸ before)

/-- Sorted lists with the same members are equal. -/
theorem Sorted.ext {members others : List Ty} (sorted : Sorted members) (sorted' : Sorted others)
    (same : ∀ ty, ty ∈ members ↔ ty ∈ others) : members = others := by
  have perm : members.Perm others := by
    rw [List.perm_ext_iff_of_nodup sorted.nodup sorted'.nodup]
    exact same
  apply List.Perm.eq_of_pairwise _ sorted sorted' perm
  intro a b _ _ before after
  exact absurd after (String.lt_asymm before)

/-- Only a type with the same text takes the place of a member. -/
theorem mem_insert_of_text_ne {ty member : Ty} {found : List Ty} (inside : member ∈ found)
    (other : ty.text ≠ member.text) : member ∈ insert ty found := by
  induction found with
  | nil => cases inside
  | cons first rest ih =>
    simp only [insert]
    rcases List.mem_cons.1 inside with rfl | later
    · rw [if_neg other]
      split <;> simp
    · split
      · exact List.mem_cons_of_mem _ later
      · split
        · exact List.mem_cons_of_mem _ inside
        · exact List.mem_cons_of_mem _ (ih later)

theorem mem_insertAll_of_text_ne {tys found : List Ty} {member : Ty} (inside : member ∈ found)
    (others : ∀ ty ∈ tys, ty.text ≠ member.text) : member ∈ insertAll tys found := by
  induction tys generalizing found with
  | nil => exact inside
  | cons ty tys ih =>
    obtain ⟨first, rest⟩ := List.forall_mem_cons.1 others
    exact ih (mem_insert_of_text_ne inside first) rest

/-- What is inserted in order stays. -/
theorem mem_insertAll_of_sorted {tys found : List Ty} (sorted : Sorted tys) {member : Ty}
    (inside : member ∈ tys) : member ∈ insertAll tys found := by
  induction tys generalizing found with
  | nil => cases inside
  | cons ty tys ih =>
    obtain ⟨least, sortedRest⟩ := List.pairwise_cons.1 sorted
    rcases List.mem_cons.1 inside with rfl | later
    · apply mem_insertAll_of_text_ne (mem_insert_of_eq rfl)
      intro other insideRest same
      exact String.lt_irrefl _ (same ▸ least other insideRest)
    · exact ih sortedRest later

/-- Sorted types replace all that was found, if they have all its texts. -/
theorem insertAll_eq_of_covers {tys found : List Ty} (sorted : Sorted tys) (sortedFound : Sorted found)
    (covers : ∀ member ∈ found, member.text ∈ tys.map Ty.text) : insertAll tys found = tys := by
  have sortedAll : Sorted (insertAll tys found) := sorted_insertAll sortedFound
  apply sortedAll.ext sorted
  intro member
  constructor
  · intro inside
    have text : member.text ∈ tys.map Ty.text := by
      rcases mem_of_mem_insertAll inside with own | old
      · exact List.mem_map_of_mem own
      · exact covers member old
    obtain ⟨own, insideTys, same⟩ := List.mem_map.1 text
    rw [sortedAll.eq_of_text inside (mem_insertAll_of_sorted sorted insideTys) same.symm]
    exact insideTys
  · exact mem_insertAll_of_sorted sorted

theorem sorted_members {rules : Signature Ty → Prop} {ty : Ty} (normal : ty.NormalUnder rules) :
    Sorted ty.members := by
  cases normal with
  | union _ sorted => exact sorted
  | _ => exact List.pairwise_singleton _ _

theorem members_of_isUnion {ty : Ty} (single : ty.isUnion = false) : ty.members = [ty] := by
  cases ty with
  | union => cases single
  | _ => rfl

/-- The members of a normal type other than `any` are normal and simple. -/
theorem NormalUnder.member {rules : Signature Ty → Prop} {ty member : Ty} (normal : ty.NormalUnder rules)
    (definite : ty.isAny = false) (inside : member ∈ ty.members) :
    member.NormalUnder rules ∧ member.isAny = false ∧ member.isUnion = false := by
  cases normal with
  | union several sorted simple each => exact ⟨each member inside, simple member inside⟩
  | any => cases definite
  | unit => rw [List.mem_singleton.1 inside]; exact ⟨.unit, rfl, rfl⟩
  | bool => rw [List.mem_singleton.1 inside]; exact ⟨.bool, rfl, rfl⟩
  | int => rw [List.mem_singleton.1 inside]; exact ⟨.int, rfl, rfl⟩
  | float => rw [List.mem_singleton.1 inside]; exact ⟨.float, rfl, rfl⟩
  | string => rw [List.mem_singleton.1 inside]; exact ⟨.string, rfl, rfl⟩
  | callable ruled params ret => rw [List.mem_singleton.1 inside]; exact ⟨.callable ruled params ret, rfl, rfl⟩
  | variadic inner => rw [List.mem_singleton.1 inside]; exact ⟨.variadic inner, rfl, rfl⟩

theorem ofMembers_members {rules : Signature Ty → Prop} {ty : Ty} (normal : ty.NormalUnder rules) :
    ofMembers ty.members = ty := by
  cases normal with
  | @union parts several =>
    match parts, several with
    | _ :: _ :: _, _ => rfl
  | _ => rfl

theorem members_ofMembers {found : List Ty} (nonempty : found ≠ [])
    (simple : ∀ member ∈ found, member.isUnion = false) : (ofMembers found).members = found := by
  match found, nonempty with
  | [member], _ => exact members_of_isUnion (simple member List.mem_cons_self)
  | _ :: _ :: _, _ => rfl

theorem normal_ofMembers {rules : Signature Ty → Prop} {found : List Ty} (sorted : Sorted found)
    (simple : ∀ member ∈ found, member.NormalUnder rules ∧ member.isAny = false ∧ member.isUnion = false) :
    (ofMembers found).NormalUnder rules := by
  match found with
  | [] => exact .unit
  | [member] => exact (simple member List.mem_cons_self).1
  | first :: second :: rest =>
    apply NormalUnder.union _ sorted
    · intro member inside
      exact (simple member inside).2
    · intro member inside
      exact (simple member inside).1
    · simp

theorem simple_of_insertAll {rules : Signature Ty → Prop} {tys : List Ty}
    (normal : ∀ ty ∈ tys, ty.NormalUnder rules) (definite : tys.any isAny = false) :
    ∀ member ∈ insertAll (tys.flatMap members) [],
      member.NormalUnder rules ∧ member.isAny = false ∧ member.isUnion = false := by
  intro member inside
  rcases mem_of_mem_insertAll inside with inTys | inNone
  · obtain ⟨ty, insideTys, inTy⟩ := List.mem_flatMap.1 inTys
    have notAny : ty.isAny = false := by simpa using List.any_eq_false.1 definite ty insideTys
    exact (normal ty insideTys).member notAny inTy
  · cases inNone

/-- The join of normal types is normal. -/
theorem normal_join {rules : Signature Ty → Prop} {tys : List Ty}
    (normal : ∀ ty ∈ tys, ty.NormalUnder rules) : (join tys).NormalUnder rules := by
  cases definite : tys.any isAny with
  | true =>
    simp only [join, definite, if_true]
    exact .any
  | false =>
    rw [join_eq definite]
    exact normal_ofMembers (sorted_insertAll List.Pairwise.nil) (simple_of_insertAll normal definite)

/-- The wider type is `any`, or it has all texts of the other one's members. -/
def Below (ty wider : Ty) : Prop :=
  wider.isAny = true ∨ ty.isAny = false ∧ ∀ member ∈ ty.members, member.text ∈ wider.members.map Ty.text

theorem Below.refl (ty : Ty) : ty.Below ty := by
  cases definite : ty.isAny with
  | true => exact .inl definite
  | false => exact .inr ⟨definite, fun _ inside => List.mem_map_of_mem inside⟩

theorem Below.trans {a b c : Ty} (first : a.Below b) (second : b.Below c) : a.Below c := by
  rcases second with isAny | ⟨definite, covers⟩
  · exact .inl isAny
  · rcases first with isAny | ⟨definite', covers'⟩
    · rw [isAny] at definite
      cases definite
    · refine .inr ⟨definite', ?_⟩
      intro member inside
      obtain ⟨between, inB, same⟩ := List.mem_map.1 (covers' member inside)
      rw [← same]
      exact covers between inB

theorem eq_any_of_isAny {ty : Ty} (isAny : ty.isAny = true) : ty = .any := by
  cases ty <;> first | rfl | cases isAny

theorem members_ne_nil {rules : Signature Ty → Prop} {ty : Ty} (normal : ty.NormalUnder rules) :
    ty.members ≠ [] := by
  cases normal with
  | @union parts several =>
    intro none
    change parts = [] at none
    subst none
    cases several
  | _ => exact List.cons_ne_nil _ _

/-- A join is wider than what it joins. -/
theorem below_join {rules : Signature Ty → Prop} {ty other : Ty} (normal : ty.NormalUnder rules)
    (normal' : other.NormalUnder rules) : ty.Below (join [ty, other]) := by
  cases definite : [ty, other].any isAny with
  | true =>
    left
    simp only [join, definite, if_true]
    rfl
  | false =>
    right
    have both : ∀ t ∈ [ty, other], t.NormalUnder rules := by simp [normal, normal']
    have simple := simple_of_insertAll both definite
    rw [join_eq definite]
    have texts : ∀ member ∈ ty.members,
        member.text ∈ (insertAll ([ty, other].flatMap members) []).map Ty.text := by
      intro member inside
      rw [text_mem_insertAll]
      left
      apply List.mem_map_of_mem
      simp [inside]
    have nonempty : insertAll ([ty, other].flatMap members) [] ≠ [] := by
      intro none
      obtain ⟨member, inside⟩ := List.exists_mem_of_ne_nil _ (members_ne_nil normal)
      have text := texts member inside
      rw [none] at text
      cases text
    rw [members_ofMembers nonempty fun member inside => (simple member inside).2.2]
    simp only [List.any_cons, Bool.or_eq_false_iff] at definite
    exact ⟨definite.1, texts⟩

/-- Joining a normal type with something below it changes nothing. -/
theorem join_eq_of_below {rules : Signature Ty → Prop} {ty wider : Ty} (normal : wider.NormalUnder rules)
    (below : ty.Below wider) : join [ty, wider] = wider := by
  cases isAny : wider.isAny with
  | true =>
    rw [eq_any_of_isAny isAny]
    simp [join, Ty.isAny]
  | false =>
    rcases below with absurdly | ⟨definite, covers⟩
    · rw [isAny] at absurdly
      cases absurdly
    · have definite' : [ty, wider].any Ty.isAny = false := by simp [definite, isAny]
      have split : insertAll ([ty, wider].flatMap members) [] =
          insertAll wider.members (insertAll ty.members []) := by
        simp [insertAll]
      have replaced : insertAll wider.members (insertAll ty.members []) = wider.members := by
        apply insertAll_eq_of_covers (sorted_members normal) (sorted_insertAll List.Pairwise.nil)
        intro member inside
        rcases mem_of_mem_insertAll inside with own | none
        · exact covers member own
        · cases none
      rw [join_eq definite', split, replaced, ofMembers_members normal]

/-- The text of a function type is no other type's. -/
theorem isCallable_of_text {ty : Ty} {newest : Signature Ty} {older : List (Signature Ty)}
    (same : ty.text = (callable newest older).text) : ty.isCallable = true := by
  obtain ⟨params, ret, rule⟩ := newest
  have chars := congrArg String.toList same
  cases ty with
  | callable => rfl
  | union parts =>
    cases parts <;> simp [text, texts, signatureText, Text.parens] at chars
  | _ => simp [text, signatureText, Text.parens] at chars

/-- A type that is no function does not become one by being widened. -/
theorem Below.isCallable {rules : Signature Ty → Prop} {ty wider : Ty} (normal : ty.NormalUnder rules)
    (below : ty.Below wider) (data : ty.isCallable = false) : wider.isCallable = false := by
  cases wider with
  | callable newest older =>
    exfalso
    rcases below with isAny | ⟨_, covers⟩
    · cases isAny
    · have single : ∀ member ∈ ty.members, member.text = (callable newest older).text := by
        intro member inside
        simpa [members] using covers member inside
      cases normal with
      | @union parts several sorted =>
        cases parts with
        | nil => simp at several
        | cons first rest =>
          cases rest with
          | nil => simp at several
          | cons second rest =>
            have before := (List.pairwise_cons.1 sorted).1 second List.mem_cons_self
            rw [single first (by simp [members]), single second (by simp [members])] at before
            exact String.lt_irrefl _ before
      | callable => cases data
      | _ =>
        have callable := isCallable_of_text (single _ (List.mem_singleton_self _))
        cases callable
  | _ => rfl

end Ty

namespace TypeText

def Context.Sound : Context → Prop
  | params tys | result tys | members tys => ∀ ty ∈ tys, ty.Declared
  | element => True

/-- All types that were read so far are in normal form. -/
def State.Sound : State → Prop
  | type contexts | head contexts | params contexts => ∀ context ∈ contexts, context.Sound
  | close _ ty contexts => ty.Declared ∧ ∀ context ∈ contexts, context.Sound
  | complete ty => ty.Declared

theorem declared_function {params : List Ty} {ret : Ty} (normal : ∀ ty ∈ params, ty.Declared)
    (normalRet : ret.Declared) : (Ty.function params ret).Declared := by
  apply Ty.NormalUnder.callable
  all_goals
    intro s only
    rw [List.mem_singleton.1 only]
  · rfl
  · exact normal
  · exact normalRet

theorem declared_atom {name : String} {ty : Ty} (named : atom? name = some ty) : ty.Declared := by
  unfold atom? at named
  split at named
  · cases named; exact .any
  · cases named; exact .bool
  · cases named; exact .float
  · cases named; exact .int
  · cases named; exact .string
  · cases named; exact .unit
  · cases named

theorem forall_append_singleton {tys : List Ty} {ty : Ty} (normal : ∀ t ∈ tys, t.Declared)
    (last : ty.Declared) : ∀ t ∈ tys ++ [ty], t.Declared := by
  intro t inside
  rcases List.mem_append.1 inside with before | here
  · exact normal t before
  · rw [List.mem_singleton.1 here]
    exact last

theorem sound_deliver {ty : Ty} {contexts : List Context} (normal : ty.Declared)
    (sound : ∀ context ∈ contexts, context.Sound) : (deliver ty contexts).Sound := by
  cases contexts with
  | nil => exact normal
  | cons context contexts =>
    obtain ⟨first, rest⟩ := List.forall_mem_cons.1 sound
    cases context with
    | params before => exact List.forall_mem_cons.2 ⟨forall_append_singleton first normal, rest⟩
    | members before => exact List.forall_mem_cons.2 ⟨forall_append_singleton first normal, rest⟩
    | result params => exact ⟨declared_function first normal, rest⟩
    | element => exact ⟨.variadic normal, rest⟩

theorem sound_head {contexts : List Context} {name : String} {state : State}
    (sound : ∀ context ∈ contexts, context.Sound) (named : head? contexts name = some state) :
    state.Sound := by
  unfold head? at named
  split at named
  · cases named
    exact sound
  · cases named
    exact List.forall_mem_cons.2 ⟨List.forall_mem_nil _, sound⟩
  · cases named
    exact List.forall_mem_cons.2 ⟨trivial, sound⟩
  · cases named

theorem sound_feed {state state' : State} {token : Token} (sound : state.Sound)
    (fed : feed state token = .ok state') : state'.Sound := by
  unfold feed at fed
  split at fed
  · split at fed
    · next named =>
      cases fed
      exact sound_deliver (declared_atom named) sound
    · cases fed
  · cases fed
    exact sound
  · cases fed
    obtain ⟨first, rest⟩ := List.forall_mem_cons.1 sound
    exact List.forall_mem_cons.2 ⟨first, rest⟩
  · cases fed
    obtain ⟨first, rest⟩ := List.forall_mem_cons.1 sound
    exact sound_deliver (Ty.normal_join first) rest
  · split at fed
    · next named =>
      cases fed
      exact sound_head sound named
    · cases fed
  · cases fed
    exact List.forall_mem_cons.2 ⟨List.forall_mem_nil _, sound⟩
  · cases fed
    exact sound_deliver sound.1 sound.2
  · cases fed

theorem sound_foldlM {tokens : List Token} {state state' : State} (sound : state.Sound)
    (fed : tokens.foldlM feed state = .ok state') : state'.Sound := by
  induction tokens generalizing state with
  | nil =>
    cases fed
    exact sound
  | cons token tokens ih =>
    obtain ⟨next, here, later⟩ := Sequencing.except_bind_eq_ok.1 fed
    exact ih (sound_feed sound here) later

/-- What is read from an annotation is in normal form. -/
theorem declared_of_read {text : String} {ty : Ty} (done : read text = .ok ty) : ty.Declared := by
  obtain ⟨state, fed, finished⟩ := Sequencing.except_bind_eq_ok.1 done
  have start : (State.type []).Sound := List.forall_mem_nil _
  have sound := sound_foldlM start fed
  cases state with
  | complete found =>
    cases finished
    exact sound
  | _ => cases finished

theorem declared_of_doc {doc : String} {ty : Ty} (done : ofDoc doc = .ok (some ty)) : ty.Declared := by
  unfold ofDoc at done
  split at done
  · cases done
  · next line _ =>
    cases found : read (String.ofList line) with
    | ok own =>
      rw [found] at done
      cases done
      exact declared_of_read found
    | error fault =>
      rw [found] at done
      cases done
  · cases done

end TypeText

end CheckedLisp
