import AbiSig.Proofs.Declaration.IndexedPass

/-!
# Reading a normal form that is written out

`Normalized` has a name and an argument list apart. Where only the text of a declaration is at hand,
the two must be found in it: the list ends at the last character, which must be `)`, and begins behind
the first `(`. `nameAndTypes` reads a text so, and refuses it where one of the two is missing.

A normal form that is written out is never refused for that. The word `indexed` is taken out of the
whole text before, but no name has a space, and the parentheses stay where they are. So the name and
the types that are found are those of the normal form (`nameAndTypes_text`).
-/

namespace AbiSig

open Text

namespace Declaration

/-- The name of a declaration, and its types as they stand in the signature, both found in the text of
the declaration. -/
def nameAndTypes (text : String) : Except SignatureError (String × String) :=
  let cs := removeIndexed text.toList
  if cs.getLast? = some ')' then
    match cs.dropLast.dropWhile (· != '(') with
    | [] => .error (.invalidFormat text .noOpen)
    | _ :: inside =>
      let name := String.ofList (trim (cs.dropLast.takeWhile (· != '(')))
      let list := trim inside
      if list.isEmpty then .ok (name, "")
      else do
        let types ← typeTokens list
        return (name, String.ofList (removeBlanks ([','].intercalate types)))
  else .error (.invalidFormat text .noClose)

/-- The parentheses of a normal form are found where they were written. -/
theorem removeIndexed_text {n : Normalized} (hname : isIdentifier n.name.toList = true) :
    removeIndexed n.text.toList =
      (n.name.toList ++ '(' :: removeIndexed n.params.toList) ++ [')'] := by
  have hspace : ' ' ∉ n.name.toList := not_mem_identifier hname (by decide)
  have hend : removeIndexed [] = [] := removeIndexed_eq_self List.not_mem_nil
  rw [Normalized.toList_text, removeIndexed_append_cons (by decide), removeIndexed_eq_self hspace,
    removeIndexed_append_cons (by decide), hend]
  simp

/-- What is read in a normal form that is written out. -/
theorem nameAndTypes_text {n : Normalized} (hname : isIdentifier n.name.toList = true) :
    nameAndTypes n.text = n.typeList.map fun list => (n.name, list) := by
  have hopen : '(' ∉ n.name.toList := not_mem_identifier hname (by decide)
  have htrim : trim n.name.toList = n.name.toList :=
    trim_of_not_isBlank fun c => not_isBlank_of_mem_identifier hname
  unfold nameAndTypes Normalized.typeList Normalized.types
  rw [removeIndexed_text hname]
  simp only [List.getLast?_concat, List.dropLast_concat, if_true, dropWhile_before hopen,
    takeWhile_before hopen, htrim, String.ofList_toList]
  by_cases hnil : (trim (removeIndexed n.params.toList)).isEmpty = true
  · -- a blank list has no types
    rw [if_pos hnil, if_pos hnil]
    rfl
  · rw [if_neg hnil, if_neg hnil]
    cases typeTokens (trim (removeIndexed n.params.toList)) with
    | error e => rfl
    | ok types => rfl

end Declaration

end AbiSig
