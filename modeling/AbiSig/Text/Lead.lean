/-!
# What a text begins with

`after? lead cs` is what follows `lead` in a text that begins with it; `after?_eq_some_iff` says that
the two make up the text. `dropLead` drops `lead` once, where it is there to drop.
-/

namespace AbiSig.Text

/-- What follows `lead` in the text, if the text begins with `lead`. -/
def after? : List Char → List Char → Option (List Char)
  | [], cs => some cs
  | _ :: _, [] => none
  | l :: lead, c :: cs => if l = c then after? lead cs else none

theorem after?_eq_some_iff {lead cs rest : List Char} :
    after? lead cs = some rest ↔ cs = lead ++ rest := by
  fun_induction after? lead cs with
  | case1 cs => simp
  | case2 => simp
  | case3 lead c cs ih => simp [ih]
  | case4 l lead c cs h => simp [Ne.symm h]

/-- The text without `lead` in front, or the whole text if it does not begin so. -/
def dropLead (lead cs : List Char) : List Char :=
  (after? lead cs).getD cs

/-- A text that begins with `lead` loses it. -/
@[simp]
theorem dropLead_append (lead cs : List Char) : dropLead lead (lead ++ cs) = cs := by
  rw [dropLead, after?_eq_some_iff.2 rfl, Option.getD_some]

end AbiSig.Text
