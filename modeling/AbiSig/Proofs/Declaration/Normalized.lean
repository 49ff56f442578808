import AbiSig.Proofs.Declaration.ArgumentList
import AbiSig.Proofs.Declaration.Header

/-!
# Normal forms

`normalize` cuts a declaration into the text before the first `(` and the text between it and the
last character kept. From then on the two parts do not see each other: the name is `nameBefore` of
the one, the argument list is `argumentText` of the other.

* `normalize_eq_ok_iff`: which normal form a declaration has.
* `run_argumentText`: the argument list keeps its nesting.
* `normalize_text_of_ok`: a normal form that is written out is normalized to itself.
-/

namespace AbiSig

open Text

namespace Declaration

variable {keep opened gap : Bool} {c : Char} {before inside cs : List Char}

/-- The text of the argument list in its one spacing. -/
def argumentText (inside : List Char) : List Char :=
  respace false true false inside

/-! ## The argument list -/

/-- Only layout is changed. -/
theorem filter_argumentText {p : Char → Bool} (hp : ∀ c, isLayout c = true → p c = false) :
    (argumentText inside).filter p = inside.filter p :=
  filter_respace hp

theorem argumentText_argumentText (inside : List Char) :
    argumentText (argumentText inside) = argumentText inside :=
  respace_respace (by simp)

theorem argumentText_eq_self (h : ∀ c ∈ inside, isBlank c = false) : argumentText inside = inside :=
  respace_eq_self fun c hc => not_isLayout_of_not_isBlank (h c hc)

theorem mem_of_mem_argumentText (h : c ∈ argumentText inside) :
    c = ' ' ∨ c ∈ inside ∧ isLayout c = false :=
  mem_of_mem_respace h

/-- The pass leaves the delimiters as they are. -/
theorem filter_isDelimiter_respace (cs : List Char) :
    (respace keep opened gap cs).filter isDelimiter = cs.filter isDelimiter := by
  apply filter_respace
  intro c hc
  exact not_isDelimiter_of_isBlank (isBlank_of_isLayout hc)

theorem depthAfter_respace (depth : Nat) (cs : List Char) :
    depthAfter '(' ')' depth (respace keep opened gap cs) = depthAfter '(' ')' depth cs :=
  depthAfter_of_filter_eq (filter_isDelimiter_respace cs)

/-- The argument list keeps its nesting. -/
theorem run_argumentText (n : Nesting) (inside : List Char) :
    n.run (argumentText inside) = n.run inside :=
  Nesting.run_of_filter_eq (filter_isDelimiter_respace inside)

theorem depthAfter_argumentText (depth : Nat) (inside : List Char) :
    depthAfter '(' ')' depth (argumentText inside) = depthAfter '(' ')' depth inside :=
  depthAfter_respace depth inside

/-! ## The parts of a normal form -/

/-- The cut text, respaced: its two parts are respaced apart. -/
theorem tidy_append_open (before inside : List Char) :
    tidy (before ++ '(' :: (inside ++ [')'])) =
      tidy before ++ '(' :: (argumentText inside ++ [')']) := by
  rw [tidy_eq_respace, tidy_eq_respace, respace_append_cons rfl, respace_append_cons rfl]
  rfl

/-- No parenthesis gets into the part in front. -/
theorem not_mem_head (h : '(' ∉ before) :
    '(' ∉ trimStart (dropKeywords (tidy (trimStart before))) := by
  intro hmem
  rw [dropKeywords_eq, tidy_eq_respace] at hmem
  have hrespace := mem_of_mem_dropLead (mem_of_mem_dropLead (mem_of_mem_trimStart hmem))
  rcases mem_of_mem_respace hrespace with hspace | ⟨hbefore, -⟩
  · exact absurd hspace (by decide)
  · exact h (mem_of_mem_trimStart hbefore)

/-- The part in front and the argument list of a cut text. -/
theorem trimStart_dropKeywords_tidy (before inside : List Char) :
    trimStart (dropKeywords (tidy (trimStart (before ++ '(' :: (inside ++ [')']))))) =
      trimStart (dropKeywords (tidy (trimStart before))) ++
        '(' :: (argumentText inside ++ [')']) := by
  rw [trimStart_append_cons rfl, tidy_append_open, dropKeywords_eq, dropKeywords_eq,
    dropLead_append_cons (by decide), dropLead_append_cons (by decide), trimStart_append_cons rfl]

theorem ofTidy_append_open (hcs : '(' ∉ cs) (inside : List Char) :
    Normalized.ofTidy (cs ++ '(' :: (inside ++ [')'])) =
      if (trimEnd cs).isEmpty then .error .noName
      else if isIdentifier (trimEnd cs) then
        .ok ⟨String.ofList (trimEnd cs), String.ofList inside⟩
      else .error (.badName (String.ofList (trimEnd cs))) := by
  rw [Normalized.ofTidy, dropWhile_before hcs]
  simp [takeWhile_before hcs]

end Declaration

open Declaration

variable {raw : String} {n : Normalized} {before inside : List Char}

/-- A text that cannot be cut has no normal form, for the same reason. -/
theorem normalize_of_cut_error {e : SignatureError} (h : throughArguments raw = .error e) :
    normalize raw = .error e := by
  unfold normalize
  rw [h]
  rfl

/-- What the cut decides about the normal form. -/
theorem normalize_of_throughArguments (hbefore : '(' ∉ before)
    (hcut : throughArguments raw = .ok (before ++ '(' :: (inside ++ [')']))) :
    normalize raw = .ok n ↔
      isIdentifier (nameBefore before) = true ∧
        n = ⟨String.ofList (nameBefore before), String.ofList (argumentText inside)⟩ := by
  have hname : trimEnd (trimStart (dropKeywords (tidy (trimStart before)))) =
    nameBefore before := rfl
  rw [normalize, hcut]
  simp only [bind, Except.bind]
  rw [trimStart_dropKeywords_tidy, ofTidy_append_open (not_mem_head hbefore), hname]
  by_cases hempty : nameBefore before = []
  · simp [hempty, isIdentifier]
  by_cases hident : isIdentifier (nameBefore before) = true
  · simp only [List.isEmpty_iff, hempty, hident, if_true, if_false, Except.ok.injEq, true_and]
    exact eq_comm
  · simp [hempty, hident]

/-- A cut text without `(` has no normal form. -/
theorem normalize_ne_ok_of_no_open {kept : List Char} (hcut : throughArguments raw = .ok kept)
    (hopen : '(' ∉ kept) : normalize raw ≠ .ok n := by
  have hhead := not_mem_head hopen
  have hdrop : (trimStart (dropKeywords (tidy (trimStart kept)))).dropWhile (· != '(') = [] := by
    rw [List.dropWhile_eq_nil_iff]
    exact fun c hc => bne_of_mem hhead hc
  rw [normalize, hcut]
  simp [bind, Except.bind, Normalized.ofTidy, hdrop]

/-- A declaration has a normal form when its cut text has a `(` with an identifier in front. -/
theorem normalize_eq_ok_iff :
    normalize raw = .ok n ↔
      ∃ before inside, '(' ∉ before ∧
        throughArguments raw = .ok (before ++ '(' :: (inside ++ [')'])) ∧
        isIdentifier (nameBefore before) = true ∧
        n = ⟨String.ofList (nameBefore before), String.ofList (argumentText inside)⟩ := by
  constructor
  · intro h
    cases hcut : throughArguments raw with
    | error e =>
      rw [normalize, hcut] at h
      exact absurd h (by simp [bind, Except.bind])
    | ok kept =>
      by_cases hopen : '(' ∈ kept
      · rcases throughArguments_inv hcut with ⟨cs, rest, rfl, -⟩
        have hmem : '(' ∈ cs := by simpa using hopen
        rcases List.eq_append_cons_of_mem hmem with ⟨before, inside, rfl, hbefore⟩
        rw [List.append_assoc, List.cons_append] at hcut
        rcases (normalize_of_throughArguments hbefore hcut).1 h with ⟨hident, hn⟩
        exact ⟨before, inside, hbefore, by rw [List.append_assoc, List.cons_append], hident, hn⟩
      · exact absurd h (normalize_ne_ok_of_no_open hcut hopen)
  · rintro ⟨before, inside, hbefore, hcut, hident, hn⟩
    exact (normalize_of_throughArguments hbefore hcut).2 ⟨hident, hn⟩

/-! ## Normal forms written out -/

theorem Normalized.toList_text (n : Normalized) :
    n.text.toList = n.name.toList ++ '(' :: (n.params.toList ++ [')']) := by
  simp [Normalized.text]

/-- A name and an argument list that keep the nesting of a cut text are kept whole by the cut. -/
theorem throughArguments_text {raw' : String} {name params : List Char} (hbefore : '(' ∉ before)
    (hname : '(' ∉ name) (hdepth : ∀ d, depthAfter '(' ')' d params = depthAfter '(' ')' d inside)
    (hcut : throughArguments raw = .ok (before ++ '(' :: (inside ++ [')'])))
    (hraw' : raw'.toList = name ++ '(' :: (params ++ [')'])) :
    throughArguments raw' = .ok (name ++ '(' :: (params ++ [')'])) := by
  rcases throughArguments_open_inv hcut with ⟨rest, hraw, hway⟩
  rcases hway with ⟨hsplit, -⟩ | ⟨hnone, -⟩
  · -- the first `(` has its `)`, which is the last character of the text
    rcases splitArguments_eq_some_iff.1 hsplit with ⟨before', inside', hbefore', hkept, -, hzero⟩
    rcases append_cons_inj hbefore hbefore' hkept with ⟨rfl, hinside⟩
    have heq : inside = inside' := List.append_cancel_right hinside
    rw [← heq, ← hdepth] at hzero
    exact (throughArguments_of_matched hname hzero hraw').2 ⟨rfl, rfl⟩
  · -- it has none, and the last `)` is the last character of the text
    rw [hraw, splitArguments_eq_none_iff hbefore] at hnone
    rcases hnone with ⟨d, hd⟩
    have hfront : ∃ d, depthAfter '(' ')' 0 (params ++ [')']) = some d := by
      rw [List.append_cons, depthAfter_append] at hd
      rcases Option.bind_eq_some_iff.1 hd with ⟨d', hd', -⟩
      rw [depthAfter_append, ← hdepth, ← depthAfter_append] at hd'
      exact ⟨d', hd'⟩
    have hnone' : splitArguments raw'.toList = none := by
      rw [hraw']
      exact (splitArguments_eq_none_iff hname).2 hfront
    have hlast : raw'.toList = (name ++ '(' :: params) ++ ')' :: [] := by
      rw [hraw', List.append_assoc, List.cons_append]
    rw [throughArguments_of_unmatched hnone' List.not_mem_nil hlast, List.append_assoc,
      List.cons_append]

/-- A normal form that is written out is normalized to itself. -/
theorem normalize_text_of_ok (h : normalize raw = .ok n) : normalize n.text = .ok n := by
  rcases normalize_eq_ok_iff.1 h with ⟨before, inside, hbefore, hcut, hident, rfl⟩
  have hname : '(' ∉ nameBefore before := not_mem_identifier hident (by decide)
  have htext : (Normalized.text ⟨String.ofList (nameBefore before),
      String.ofList (argumentText inside)⟩).toList =
        nameBefore before ++ '(' :: (argumentText inside ++ [')']) := by
    simp [Normalized.toList_text]
  -- the cut sees the parentheses of the argument list only, and these are as they were
  have hcut' := throughArguments_text hbefore hname (depthAfter_argumentText · inside) hcut htext
  have hself := nameBefore_of_isIdentifier hident
  refine (normalize_of_throughArguments hname hcut').2 ⟨?_, ?_⟩
  · rw [hself]
    exact hident
  · rw [hself, argumentText_argumentText]

end AbiSig
