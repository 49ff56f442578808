import AbiSig.Text.Blank
import AbiSig.Text.Lead
import Mathlib.Data.List.DropRight
import Mathlib.Data.List.TakeWhile

/-!
# Trimming, and leads before a fixed character

A character that is not blank stops trimming on its side, and a character that is not in a lead ends
the comparison with it. So both operations can be cut at such a character. A text can be cut where a
character stands for the first time, and in one way only (`append_cons_inj`). In the same way a space
ends the comparison with a word (`append_space_eq_append_space`).
-/

namespace AbiSig.Text

variable {c : Char} {as bs cs lead : List Char}

/-! ## Trimming -/

theorem not_isLayout_of_not_isBlank (h : isBlank c = false) : isLayout c = false := by
  rw [← Bool.not_eq_true] at h ⊢
  exact fun hlayout => h (isBlank_of_isLayout hlayout)

theorem trimStart_cons_blank (hc : isBlank c = true) : trimStart (c :: cs) = trimStart cs :=
  List.dropWhile_cons_of_pos hc

theorem trimStart_cons (hc : isBlank c = false) : trimStart (c :: cs) = c :: cs :=
  List.dropWhile_cons_of_neg (by simp [hc])

/-- A character that is not blank ends the trimming in front. -/
theorem trimStart_append_cons (hc : isBlank c = false) (as bs : List Char) :
    trimStart (as ++ c :: bs) = trimStart as ++ c :: bs := by
  induction as with
  | nil => rw [List.nil_append, trimStart_cons hc]; rfl
  | cons a as ih =>
    by_cases ha : isBlank a = true
    · rw [List.cons_append, trimStart_cons_blank ha, trimStart_cons_blank ha, ih]
    · rw [Bool.not_eq_true] at ha
      rw [List.cons_append, trimStart_cons ha, trimStart_cons ha, List.cons_append]

theorem trimStart_eq_self (h : ∀ c ∈ cs.head?, isBlank c = false) : trimStart cs = cs := by
  cases cs with
  | nil => rfl
  | cons c cs => exact trimStart_cons (h c rfl)

theorem trimEnd_concat_blank (hc : isBlank c = true) (cs : List Char) :
    trimEnd (cs ++ [c]) = trimEnd cs :=
  List.rdropWhile_concat_pos isBlank cs c hc

theorem trimEnd_concat (hc : isBlank c = false) (cs : List Char) :
    trimEnd (cs ++ [c]) = cs ++ [c] :=
  List.rdropWhile_concat_neg isBlank cs c (by simp [hc])

theorem trimEnd_append_blanks (hbs : ∀ c ∈ bs, isBlank c = true) (as : List Char) :
    trimEnd (as ++ bs) = trimEnd as := by
  induction bs using List.reverseRecOn with
  | nil => rw [List.append_nil]
  | append_singleton bs c ih =>
    rw [List.forall_mem_append] at hbs
    rw [← List.append_assoc, trimEnd_concat_blank (hbs.2 c List.mem_cons_self), ih hbs.1]

/-- A blank at the end is trimmed. -/
theorem trim_concat_blank (hc : isBlank c = true) (cs : List Char) : trim (cs ++ [c]) = trim cs := by
  unfold trim trimStart
  rw [List.dropWhile_append]
  split
  · next hempty =>
    -- nothing but blanks was there
    rw [List.isEmpty_iff.1 hempty, List.dropWhile_cons_of_pos hc]
    rfl
  · exact trimEnd_concat_blank hc _

theorem trimEnd_eq_self (h : ∀ c ∈ cs.getLast?, isBlank c = false) : trimEnd cs = cs := by
  induction cs using List.reverseRecOn with
  | nil => rfl
  | append_singleton cs c _ => exact trimEnd_concat (h c (by simp)) cs

/-- A character that is not blank ends the trimming at the end. -/
theorem trimEnd_append_cons (hc : isBlank c = false) (as bs : List Char) :
    trimEnd (as ++ c :: bs) = as ++ c :: trimEnd bs := by
  induction bs using List.reverseRecOn with
  | nil => exact trimEnd_concat hc as
  | append_singleton bs d ih =>
    have hconcat : as ++ c :: (bs ++ [d]) = (as ++ c :: bs) ++ [d] := by simp
    by_cases hd : isBlank d = true
    · rw [hconcat, trimEnd_concat_blank hd, trimEnd_concat_blank hd, ih]
    · rw [Bool.not_eq_true] at hd
      rw [hconcat, trimEnd_concat hd, trimEnd_concat hd, ← hconcat]

/-- The character in front stays, unless nothing else does. -/
theorem trimEnd_cons (c : Char) (cs : List Char) :
    trimEnd (c :: cs) = trimEnd cs ∨ trimEnd (c :: cs) = c :: trimEnd cs := by
  induction cs using List.reverseRecOn with
  | nil =>
    by_cases hc : isBlank c = true
    · exact Or.inl (trimEnd_concat_blank hc [])
    · rw [Bool.not_eq_true] at hc
      exact Or.inr (trimEnd_concat hc [])
  | append_singleton cs d ih =>
    rw [← List.cons_append]
    by_cases hd : isBlank d = true
    · rw [trimEnd_concat_blank hd, trimEnd_concat_blank hd]
      exact ih
    · rw [Bool.not_eq_true] at hd
      rw [trimEnd_concat hd, trimEnd_concat hd]
      exact Or.inr rfl

/-- A text whose ends are not blank is trimmed. -/
theorem trim_eq_self (hhead : ∀ c ∈ cs.head?, isBlank c = false)
    (hlast : ∀ c ∈ cs.getLast?, isBlank c = false) : trim cs = cs := by
  rw [trim, trimStart_eq_self hhead, trimEnd_eq_self hlast]

theorem trimStart_eq_self_iff : trimStart cs = cs ↔ ∀ c ∈ cs.head?, isBlank c = false := by
  constructor
  · intro h c hc
    have hhead := List.head?_dropWhile_not isBlank cs
    rw [show cs.dropWhile isBlank = cs from h, Option.mem_def.1 hc] at hhead
    simpa using hhead
  · exact trimStart_eq_self

theorem trim_sublist (cs : List Char) : (trim cs).Sublist cs :=
  (List.rdropWhile_prefix isBlank _).sublist.trans (List.dropWhile_sublist isBlank)

/-- Trimming leaves a text as it is exactly if neither of its ends is blank. -/
theorem trim_eq_self_iff :
    trim cs = cs ↔
      (∀ c ∈ cs.head?, isBlank c = false) ∧ ∀ c ∈ cs.getLast?, isBlank c = false := by
  constructor
  · intro h
    have hstart : trimStart cs = cs := by
      have hsub : (trim cs).Sublist (trimStart cs) :=
        (List.rdropWhile_prefix isBlank _).sublist
      rw [h] at hsub
      exact (List.dropWhile_sublist isBlank).antisymm hsub
    refine ⟨trimStart_eq_self_iff.1 hstart, ?_⟩
    intro c hc
    rw [← Bool.not_eq_true]
    intro hblank
    -- a blank at the end is not kept
    obtain ⟨ds, rfl⟩ := List.getLast?_eq_some_iff.1 hc
    rw [trim_concat_blank hblank] at h
    have hlength := (trim_sublist ds).length_le
    rw [h, List.length_append, List.length_singleton] at hlength
    omega
  · rintro ⟨hhead, hlast⟩
    exact trim_eq_self hhead hlast

theorem trim_of_not_isBlank (h : ∀ c ∈ cs, isBlank c = false) : trim cs = cs :=
  trim_eq_self (fun c hc => h c (List.mem_of_head? hc)) fun c hc => h c (List.mem_of_getLast? hc)

theorem trimStart_append_blanks (has : ∀ c ∈ as, isBlank c = true) (bs : List Char) :
    trimStart (as ++ bs) = trimStart bs :=
  List.dropWhile_append_of_pos has

theorem trim_append_blanks (hbs : ∀ c ∈ bs, isBlank c = true) (as : List Char) :
    trim (as ++ bs) = trim as := by
  induction bs using List.reverseRecOn with
  | nil => rw [List.append_nil]
  | append_singleton bs c ih =>
    rw [List.forall_mem_append] at hbs
    rw [← List.append_assoc, trim_concat_blank (hbs.2 c List.mem_cons_self), ih hbs.1]

/-- Blanks around a text are trimmed. -/
theorem trim_between (has : ∀ c ∈ as, isBlank c = true) (hbs : ∀ c ∈ bs, isBlank c = true)
    (cs : List Char) : trim (as ++ (cs ++ bs)) = trim cs := by
  rw [trim, trimStart_append_blanks has, ← trim, trim_append_blanks hbs]

/-- A text is its trimmed form between blanks. -/
theorem exists_eq_append_trim (cs : List Char) :
    ∃ as bs, (∀ c ∈ as, isBlank c = true) ∧ (∀ c ∈ bs, isBlank c = true) ∧
      cs = as ++ (trim cs ++ bs) := by
  refine ⟨cs.takeWhile isBlank, (trimStart cs).rtakeWhile isBlank, fun c => List.mem_takeWhile_imp,
    fun c => List.mem_rtakeWhile_imp, ?_⟩
  have hend : trim cs ++ (trimStart cs).rtakeWhile isBlank = trimStart cs :=
    List.rdropWhile_append_rtakeWhile
  rw [hend, trimStart, List.takeWhile_append_dropWhile]

/-- Trimming a second time changes nothing. -/
theorem trim_trim (cs : List Char) : trim (trim cs) = trim cs := by
  obtain ⟨as, bs, has, hbs, heq⟩ := exists_eq_append_trim cs
  conv_rhs => rw [heq, trim_between has hbs]

theorem mem_of_mem_trimStart (h : c ∈ trimStart cs) : c ∈ cs :=
  (List.dropWhile_suffix isBlank).subset h

theorem mem_of_mem_trim (h : c ∈ trim cs) : c ∈ cs :=
  mem_of_mem_trimStart ((List.rdropWhile_prefix isBlank (trimStart cs)).subset h)

/-- A trimmed text does not begin with a blank. -/
theorem not_isBlank_of_mem_head?_trim (hc : c ∈ (trim cs).head?) : isBlank c = false :=
  (trim_eq_self_iff.1 (trim_trim cs)).1 c hc

section Filter

variable {p : Char → Bool} (hp : ∀ c, isBlank c = true → p c = false)

include hp

theorem filter_trimStart (cs : List Char) : (trimStart cs).filter p = cs.filter p := by
  induction cs with
  | nil => rfl
  | cons c cs ih =>
    by_cases hc : isBlank c = true
    · rw [trimStart_cons_blank hc, ih, List.filter_cons_of_neg (by simp [hp c hc])]
    · rw [Bool.not_eq_true] at hc
      rw [trimStart_cons hc]

theorem filter_trimEnd (cs : List Char) : (trimEnd cs).filter p = cs.filter p := by
  induction cs using List.reverseRecOn with
  | nil => rfl
  | append_singleton cs c ih =>
    by_cases hc : isBlank c = true
    · rw [trimEnd_concat_blank hc, ih, List.filter_append,
        List.filter_cons_of_neg (by simp [hp c hc]), List.filter_nil, List.append_nil]
    · rw [Bool.not_eq_true] at hc
      rw [trimEnd_concat hc]

/-- Trimming takes blanks only. -/
theorem filter_trim (cs : List Char) : (trim cs).filter p = cs.filter p := by
  rw [trim, filter_trimEnd hp, filter_trimStart hp]

end Filter

theorem removeBlanks_trim (cs : List Char) : removeBlanks (trim cs) = removeBlanks cs :=
  filter_trim (by simp) cs

theorem mem_trim (h : c ∈ cs) (hc : isBlank c = false) : c ∈ trim cs := by
  have hmem : c ∈ removeBlanks (trim cs) := by
    rw [removeBlanks_trim]
    exact List.mem_filter.2 ⟨h, by simp [hc]⟩
  exact (List.mem_filter.1 hmem).1

/-! ## Leads -/

theorem isSome_after?_iff : (after? lead cs).isSome = true ↔ lead <+: cs := by
  rw [Option.isSome_iff_exists]
  simp only [after?_eq_some_iff]
  constructor
  · rintro ⟨rest, rfl⟩
    exact List.prefix_append lead rest
  · rintro ⟨rest, rfl⟩
    exact ⟨rest, rfl⟩

/-- The comparison with a lead ends before a character that is not in it. -/
theorem after?_append_cons (hc : c ∉ lead) (as bs : List Char) :
    after? lead (as ++ c :: bs) = (after? lead as).map (· ++ c :: bs) := by
  induction lead generalizing as with
  | nil => rfl
  | cons l lead ih =>
    rw [List.mem_cons, not_or] at hc
    cases as with
    | nil => simp [after?, Ne.symm hc.1]
    | cons a as =>
      rw [List.cons_append, after?, after?]
      split
      · exact ih hc.2 as
      · rfl

theorem dropLead_append_cons (hc : c ∉ lead) (as bs : List Char) :
    dropLead lead (as ++ c :: bs) = dropLead lead as ++ c :: bs := by
  rw [dropLead, dropLead, after?_append_cons hc]
  cases after? lead as <;> rfl

/-- A text that lacks a character of the lead does not begin with it. -/
theorem dropLead_eq_self (hlead : c ∈ lead) (hc : c ∉ cs) : dropLead lead cs = cs := by
  cases h : after? lead cs with
  | none => rw [dropLead, h, Option.getD_none]
  | some rest =>
    rw [after?_eq_some_iff] at h
    exact absurd (h ▸ List.mem_append_left rest hlead) hc

theorem eq_or_eq_append_dropLead (lead cs : List Char) :
    dropLead lead cs = cs ∨ cs = lead ++ dropLead lead cs := by
  cases h : after? lead cs with
  | none => exact Or.inl (by rw [dropLead, h, Option.getD_none])
  | some rest =>
    rw [after?_eq_some_iff] at h
    exact Or.inr (by rw [h, dropLead_append])

theorem mem_of_mem_dropLead (h : c ∈ dropLead lead cs) : c ∈ cs := by
  rcases eq_or_eq_append_dropLead lead cs with heq | heq
  · exact heq ▸ h
  · rw [heq]
    exact List.mem_append_right lead h

theorem mem_dropLead (h : c ∈ cs) (hc : c ∉ lead) : c ∈ dropLead lead cs := by
  rcases eq_or_eq_append_dropLead lead cs with heq | heq
  · rwa [heq]
  · rw [heq, List.mem_append] at h
    exact h.resolve_left hc

/-! ## Texts before a character -/

theorem bne_of_mem {d : Char} (hd : d ∉ cs) (hc : c ∈ cs) : (c != d) = true := by
  rw [bne_iff_ne]
  rintro rfl
  exact hd hc

theorem takeWhile_before (h : c ∉ as) (bs : List Char) :
    (as ++ c :: bs).takeWhile (· != c) = as := by
  rw [List.takeWhile_append_of_pos fun d hd => bne_of_mem h hd,
    List.takeWhile_cons_of_neg (by simp), List.append_nil]

theorem dropWhile_before (h : c ∉ as) (bs : List Char) :
    (as ++ c :: bs).dropWhile (· != c) = c :: bs := by
  rw [List.dropWhile_append_of_pos fun d hd => bne_of_mem h hd,
    List.dropWhile_cons_of_neg (by simp)]

/-- A character stands in a text for the first time in one place. -/
theorem append_cons_inj {as' bs' : List Char} (has : c ∉ as) (has' : c ∉ as')
    (h : as ++ c :: bs = as' ++ c :: bs') : as = as' ∧ bs = bs' := by
  have htake := congrArg (List.takeWhile (· != c)) h
  have hdrop := congrArg (List.dropWhile (· != c)) h
  rw [takeWhile_before has, takeWhile_before has'] at htake
  rw [dropWhile_before has, dropWhile_before has'] at hdrop
  exact ⟨htake, (List.cons.inj hdrop).2⟩

/-! ## Words before a space -/

/-- If a text with a space begins with a word and a space, the word ends at this space, or at an
earlier one. -/
theorem append_space_eq_append_space {word before rest : List Char} (hword : ' ' ∉ word)
    (h : before ++ ' ' :: as = word ++ ' ' :: rest) :
    (before = word ∧ rest = as) ∨ ∃ before', before = word ++ ' ' :: before' ∧
      rest = before' ++ ' ' :: as := by
  rcases List.append_eq_append_iff.1 h with ⟨x, hx, hrest⟩ | ⟨x, hx, hrest⟩
  · -- the space would stand in the word
    cases x with
    | nil =>
      left
      exact ⟨by simpa using hx.symm, (List.cons.inj hrest).2.symm⟩
    | cons y x =>
      have hy : y = ' ' := (List.cons.inj hrest).1.symm
      rw [hx, hy] at hword
      exact absurd (List.mem_append_right before List.mem_cons_self) hword
  · cases x with
    | nil =>
      left
      exact ⟨by simpa using hx, (List.cons.inj hrest).2⟩
    | cons y x =>
      right
      have hy : y = ' ' := (List.cons.inj hrest).1.symm
      exact ⟨x, by rw [hx, hy], (List.cons.inj hrest).2⟩

end AbiSig.Text
