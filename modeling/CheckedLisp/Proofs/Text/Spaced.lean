import Mathlib.Data.List.Forall2

/-! What a text spells, whatever the reader, is found part by part when spaces keep the parts from
touching. -/
namespace CheckedLisp.Text

variable {κ : Type} {spells : String → List κ → Prop}

theorem spells_intercalate (none : spells "" [])
    (spaced : ∀ {text more kinds others}, spells text kinds → spells more others →
      spells (text ++ " " ++ more) (kinds ++ others))
    {texts : List String} {parts : List (List κ)} (each : List.Forall₂ spells texts parts) :
    spells (" ".intercalate texts) parts.flatten := by
  induction each with
  | nil => exact none
  | cons first others ih =>
    cases others with
    | nil => simpa using first
    | cons second others =>
      rw [String.intercalate_cons_cons, List.flatten_cons]
      exact spaced first ih

end CheckedLisp.Text
