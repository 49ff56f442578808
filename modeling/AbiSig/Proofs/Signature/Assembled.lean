import AbiSig.Proofs.Text.Slices
import AbiSig.Proofs.Text.Trimming
import AbiSig.Signature

/-!
# Reading an assembled signature

`Signature.assemble` puts a name in front of types in parentheses and removes all blanks. The name and the
types of the result stand in front of its first parenthesis and between that and its last character.

1. **Cuts**: in a text with a parenthesis in front of its last character, both are slices in range
   (`slice_name`, `slice_args`).
2. **Assembling**: an assembled text is of this kind, and its first parenthesis is that of the name
   if the name has one (`exists_text_assemble`). Otherwise name and types are read back as they went
   in, without their blanks.
-/

namespace AbiSig.Signature

open Text

variable {s : Signature} {front inside : List Char}

/-! ## Cuts -/

theorem name_of_text (hfront : '(' ∉ front) (htext : s.text.toList = front ++ '(' :: (inside ++ [')'])) :
    s.name = String.ofList front := by
  rw [name, htext, takeWhile_before hfront]

theorem args_of_text (hfront : '(' ∉ front) (htext : s.text.toList = front ++ '(' :: (inside ++ [')'])) :
    s.args = String.ofList inside := by
  rw [args, htext, dropWhile_before hfront]
  simp

/-- The name is the slice in front of the first parenthesis. -/
theorem slice_name (hfront : '(' ∉ front) (htext : s.text.toList = front ++ '(' :: (inside ++ [')'])) :
    slice? 0 (utf8Size front) s.text = some s.name := by
  rw [name_of_text hfront htext, slice?_eq_some_iff]
  refine ⟨[], '(' :: (inside ++ [')']), ?_, rfl, ?_⟩
  · rw [htext, String.toList_ofList, List.nil_append]
  · rw [String.toList_ofList, List.nil_append]

/-- The types are the slice from behind the first parenthesis up to the last byte. -/
theorem slice_args (hfront : '(' ∉ front) (htext : s.text.toList = front ++ '(' :: (inside ++ [')'])) :
    slice? (utf8Size front + 1) (s.text.utf8ByteSize - 1) s.text = some s.args := by
  have hopen : ('(' : Char).utf8Size = 1 := rfl
  have hclose : (')' : Char).utf8Size = 1 := rfl
  rw [args_of_text hfront htext, slice?_eq_some_iff]
  refine ⟨front ++ ['('], [')'], ?_, ?_, ?_⟩
  · rw [htext, String.toList_ofList, List.append_assoc, List.singleton_append]
  · simp [hopen]
  · rw [utf8ByteSize_eq, htext, String.toList_ofList]
    simp only [utf8Size_append, utf8Size_cons, utf8Size_nil, hopen, hclose]
    omega

/-! ## Assembling -/

/-- The first parenthesis of an assembled text is the first one of the name, or else the one behind
it. -/
theorem exists_text_assemble (name types : String) :
    ∃ inside, (assemble name types).text.toList =
        removeBlanks (name.toList.takeWhile (· != '(')) ++ '(' :: (inside ++ [')']) ∧
      ('(' ∉ name.toList → inside = removeBlanks types.toList) := by
  have hopen (cs : List Char) : removeBlanks ('(' :: cs) = '(' :: removeBlanks cs :=
    removeBlanks_cons (by decide) cs
  have hclose : removeBlanks [')'] = [')'] := rfl
  have htext : (assemble name types).text.toList =
      removeBlanks (name.toList ++ '(' :: types.toList ++ [')']) := by
    rw [assemble, String.toList_ofList]
  by_cases hmem : '(' ∈ name.toList
  · -- the rest of the name stands between the parentheses
    obtain ⟨front, back, hname, hfront⟩ := List.eq_append_cons_of_mem hmem
    refine ⟨removeBlanks (back ++ '(' :: types.toList), ?_, fun hnot => absurd hmem hnot⟩
    rw [htext, hname, takeWhile_before hfront]
    simp [hopen, hclose]
  · have htake : name.toList.takeWhile (· != '(') = name.toList :=
      List.takeWhile_eq_self_iff.2 fun c hc => bne_of_mem hmem hc
    refine ⟨removeBlanks types.toList, ?_, fun _ => rfl⟩
    rw [htext, htake]
    simp [hopen, hclose]

/-- What a signature has of the name and the types that it was assembled from. -/
structure Assembled (name types : String) (s : Signature) : Prop where
  no_blank : ∀ c ∈ s.text.toList, isBlank c = false
  /-- The name and the types are slices of the text, cut at its first parenthesis and in front of its last
  byte. -/
  slices : ∃ opening, offset? '(' s.text.toList = some opening ∧
    slice? 0 opening s.text = some s.name ∧
    slice? (opening + 1) (s.text.utf8ByteSize - 1) s.text = some s.args
  whole : s.name ++ "(" ++ s.args ++ ")" = s.text
  /-- The name ends where the first parenthesis was. -/
  before : s.name = String.ofList (removeBlanks (name.toList.takeWhile (· != '(')))
  /-- A name without a parenthesis comes back, and so do the types. -/
  parts : '(' ∉ name.toList →
    s.name = String.ofList (removeBlanks name.toList) ∧
      s.args = String.ofList (removeBlanks types.toList)

theorem assembled (name types : String) : Assembled name types (assemble name types) := by
  obtain ⟨inside, htext, hinside⟩ := exists_text_assemble name types
  have hfront : '(' ∉ removeBlanks (name.toList.takeWhile (· != '(')) := by
    intro hmem
    have hbefore := List.mem_takeWhile_imp (List.mem_filter.1 hmem).1
    exact absurd hbefore (by simp)
  have hname := name_of_text hfront htext
  have hargs := args_of_text hfront htext
  constructor
  case no_blank => exact fun c => not_isBlank_of_mem_assemble
  case slices =>
    refine ⟨_, ?_, slice_name hfront htext, slice_args hfront htext⟩
    rw [htext, offset?_append_cons hfront]
  case whole =>
    rw [← String.toList_inj, htext, hname, hargs]
    simp
  case before => exact hname
  case parts =>
    intro hopen
    have htake : name.toList.takeWhile (· != '(') = name.toList :=
      List.takeWhile_eq_self_iff.2 fun c hc => bne_of_mem hopen hc
    rw [hname, hargs, htake, hinside hopen]
    exact ⟨rfl, rfl⟩

/-- Name and types are read back from every assembled signature, and where nothing had to be removed, the
signature determines them. -/
theorem assembled_read_back :
    (∀ name types : String, Assembled name types (assemble name types)) ∧
      ∀ name types name' types' : String, '(' ∉ name.toList → '(' ∉ name'.toList →
        (∀ c ∈ name.toList ++ types.toList, isBlank c = false) →
        (∀ c ∈ name'.toList ++ types'.toList, isBlank c = false) →
        assemble name types = assemble name' types' → name = name' ∧ types = types' := by
  refine ⟨assembled, ?_⟩
  intro name types name' types' hopen hopen' hblank hblank' heq
  -- without blanks, what is read back is what was put in
  have hread {name types : String} (hopen : '(' ∉ name.toList)
      (hblank : ∀ c ∈ name.toList ++ types.toList, isBlank c = false) :
      (assemble name types).name = name ∧ (assemble name types).args = types := by
    rw [List.forall_mem_append] at hblank
    obtain ⟨hname, hargs⟩ := (assembled name types).parts hopen
    rw [removeBlanks_eq_self hblank.1, String.ofList_toList] at hname
    rw [removeBlanks_eq_self hblank.2, String.ofList_toList] at hargs
    exact ⟨hname, hargs⟩
  obtain ⟨hname, hargs⟩ := hread hopen hblank
  obtain ⟨hname', hargs'⟩ := hread hopen' hblank'
  constructor
  · rw [← hname, heq, hname']
  · rw [← hargs, heq, hargs']

/-- Blanks of all widths around the cuts, and two lists of types that a parenthesis tells apart. -/
theorem assembled_read_back_wide :
    (assemble "\u00e9\u00a0" "\u3000a, b\u00e9 ").name = "\u00e9" ∧
      (assemble "\u00e9\u00a0" "\u3000a, b\u00e9 ").args = "a,b\u00e9" ∧
      assemble "f" "(a)" ≠ assemble "f" "a" := by
  obtain ⟨hread, hinjective⟩ := assembled_read_back
  obtain ⟨hname, hargs⟩ := (hread "\u00e9\u00a0" "\u3000a, b\u00e9 ").parts (by decide)
  refine ⟨by rw [hname]; decide, by rw [hargs]; decide, ?_⟩
  intro heq
  obtain ⟨-, htypes⟩ := hinjective "f" "(a)" "f" "a" (by decide) (by decide) (by decide) (by decide) heq
  exact absurd htypes (by decide)

end AbiSig.Signature
