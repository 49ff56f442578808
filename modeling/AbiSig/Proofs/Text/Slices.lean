import AbiSig.Text.Utf8
import Mathlib.Data.List.Basic

/-!
# Texts by byte positions

A byte position is the number of bytes in front of it.

* `offset?` and `lastOffset?`: where a character stands for the first time, and for the last time.
* `slice?`: the text between two positions. There is none unless both stand between characters and come in
  this order, so `slice?_eq_some_iff` says of a cut that it is in range.
-/

namespace AbiSig.Text

variable {c : Char} {cs : List Char} {s part : String} {first last offset : Nat}

/-! ## Where a character stands -/

/-- The position of the first `c` in the text. -/
def offset? (c : Char) : List Char → Option Nat
  | [] => none
  | d :: cs => if d = c then some 0 else (offset? c cs).map (d.utf8Size + ·)

/-- The position of the last `c` in the text. -/
def lastOffset? (c : Char) : List Char → Option Nat
  | [] => none
  | d :: cs =>
    match lastOffset? c cs with
    | some offset => some (d.utf8Size + offset)
    | none => if d = c then some 0 else none

theorem offset?_append_cons {as : List Char} (has : c ∉ as) (bs : List Char) :
    offset? c (as ++ c :: bs) = some (utf8Size as) := by
  induction as with
  | nil => simp [offset?]
  | cons a as ih =>
    rw [List.mem_cons, not_or] at has
    rw [List.cons_append, offset?, if_neg (Ne.symm has.1), ih has.2, Option.map_some, utf8Size_cons]

theorem offset?_eq_none (hcs : c ∉ cs) : offset? c cs = none := by
  induction cs with
  | nil => rfl
  | cons d cs ih =>
    rw [List.mem_cons, not_or] at hcs
    rw [offset?, if_neg (Ne.symm hcs.1), ih hcs.2, Option.map_none]

theorem lastOffset?_eq_none (hcs : c ∉ cs) : lastOffset? c cs = none := by
  induction cs with
  | nil => rfl
  | cons d cs ih =>
    rw [List.mem_cons, not_or] at hcs
    rw [lastOffset?, ih hcs.2]
    exact if_neg (Ne.symm hcs.1)

theorem lastOffset?_append_cons {bs : List Char} (hbs : c ∉ bs) (as : List Char) :
    lastOffset? c (as ++ c :: bs) = some (utf8Size as) := by
  induction as with
  | nil => rw [List.nil_append, lastOffset?, lastOffset?_eq_none hbs]; simp
  | cons a as ih => rw [List.cons_append, lastOffset?, ih, utf8Size_cons]

/-! ## Slices -/

/-- The text between two positions, if they stand between characters of the text and in this order. -/
def slice? (first last : Nat) (s : String) : Option String :=
  if h : String.Pos.Raw.IsValid s ⟨first⟩ ∧ String.Pos.Raw.IsValid s ⟨last⟩ ∧ first ≤ last then
    some (String.extract ⟨⟨first⟩, h.1⟩ ⟨⟨last⟩, h.2.1⟩)
  else none

/-- The bytes are those that a string takes. -/
theorem utf8ByteSize_eq (s : String) : s.utf8ByteSize = utf8Size s.toList := by
  have hlist (cs : List Char) : (String.ofList cs).utf8ByteSize = utf8Size cs := by
    induction cs with
    | nil => rfl
    | cons c cs ih =>
      have hcons : String.ofList (c :: cs) = String.singleton c ++ String.ofList cs := by
        rw [← List.singleton_append, String.ofList_append]
        rfl
      rw [hcons, String.utf8ByteSize_append, String.utf8ByteSize_singleton, ih, utf8Size_cons]
  rw [← hlist, String.ofList_toList]

/-- A slice is what stands between the bytes in front of it and the bytes behind it. -/
theorem slice?_eq_some_iff :
    slice? first last s = some part ↔
      ∃ as bs, s.toList = as ++ (part.toList ++ bs) ∧ utf8Size as = first ∧
        utf8Size (as ++ part.toList) = last := by
  constructor
  · intro h
    unfold slice? at h
    split at h
    · next hvalid =>
      have hle : (⟨⟨first⟩, hvalid.1⟩ : s.Pos) ≤ ⟨⟨last⟩, hvalid.2.1⟩ := hvalid.2.2
      rw [String.extract_eq_copy_slice _ _ hle, Option.some.injEq] at h
      obtain ⟨t, u, hfirst, hlast⟩ := String.copy_slice_eq_iff_splits.1 ⟨hle, h⟩
      refine ⟨t.toList, u.toList, ?_, ?_, ?_⟩
      · rw [← String.toList_append, ← String.toList_append, ← hfirst.eq_append]
      · rw [← utf8ByteSize_eq]
        exact (congrArg String.Pos.Raw.byteIdx hfirst.offset_eq_rawEndPos).symm
      · rw [← String.toList_append, ← utf8ByteSize_eq]
        exact (congrArg String.Pos.Raw.byteIdx hlast.offset_eq_rawEndPos).symm
    · exact absurd h (by simp)
  · rintro ⟨as, bs, hs, rfl, rfl⟩
    have hsplit : s = String.ofList as ++ (part ++ String.ofList bs) := by
      rw [← String.toList_inj, hs]
      simp
    have hsplit' : s = (String.ofList as ++ part) ++ String.ofList bs := by
      rw [hsplit, String.append_assoc]
    have hfirst : (⟨utf8Size as⟩ : String.Pos.Raw) = (String.ofList as).rawEndPos := by
      rw [String.Pos.Raw.ext_iff, String.byteIdx_rawEndPos, utf8ByteSize_eq, String.toList_ofList]
    have hlast : (⟨utf8Size (as ++ part.toList)⟩ : String.Pos.Raw) =
        (String.ofList as ++ part).rawEndPos := by
      rw [String.Pos.Raw.ext_iff, String.byteIdx_rawEndPos, utf8ByteSize_eq, String.toList_append,
        String.toList_ofList]
    have hvalid := String.Pos.Raw.isValid_iff_exists_append.2 ⟨_, _, hsplit, hfirst⟩
    have hvalid' := String.Pos.Raw.isValid_iff_exists_append.2 ⟨_, _, hsplit', hlast⟩
    have hle : utf8Size as ≤ utf8Size (as ++ part.toList) := by
      rw [utf8Size_append]
      exact Nat.le_add_right _ _
    obtain ⟨_, hcopy⟩ := String.copy_slice_eq_iff_splits.2
      ⟨_, _, String.Pos.Splits.mk (p := ⟨_, hvalid⟩) hsplit hfirst,
        String.Pos.Splits.mk (p := ⟨_, hvalid'⟩) hsplit' hlast⟩
    rw [slice?, dif_pos ⟨hvalid, hvalid', hle⟩, String.extract_eq_copy_slice _ _ hle, hcopy]

end AbiSig.Text
