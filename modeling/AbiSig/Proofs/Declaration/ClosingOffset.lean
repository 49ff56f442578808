import AbiSig.Proofs.Declaration.ArgumentList
import AbiSig.Proofs.Text.Slices

/-!
# The closing parenthesis by its byte position

`throughArguments` cuts a text into parts. Here the same cut is made with byte positions: one counter looks for
the `)` that closes the first `(`, and the parts are slices of the text. Two things could go wrong, a
`Fault`: the counter is lowered below zero, or a slice is out of range.

1. **The search**: the counter stands at one or more until the search ends, so it is never lowered
   below zero. The search finds the end of the shortest stretch that begins at the first `(` and has as
   many `)` as `(` (`closingOffset_eq_some_iff`), and it finds nothing if there is no such stretch
   (`closingOffset_eq_none_iff`).
2. **The cut**: no slice is out of range, and the cut with byte positions is that of
   `throughArguments` (`cutAtOffsets_eq`).
-/

namespace AbiSig.Declaration

open Text

variable {raw : String} {depth depth' offset e : Nat}
  {before inside stretch rest as bs cs : List Char}

/-! ## The search -/

/-- What may stop a computation with byte positions. -/
inductive Fault where
  | underflow
  | outOfRange
deriving Repr, DecidableEq

/-- The slice of a text between two byte positions. -/
def slice (first last : Nat) (raw : String) : Except Fault (List Char) :=
  match slice? first last raw with
  | some part => .ok part.toList
  | none => .error .outOfRange

/-- The position of the `)` that brings the counter back to zero, if there is one. The text begins at
the position `offset`, where the counter stands at `depth`. -/
def searchClose (depth offset : Nat) : List Char → Except Fault (Option Nat)
  | [] => .ok none
  | c :: cs =>
    if c = '(' then searchClose (depth + 1) (offset + c.utf8Size) cs
    else if c = ')' then
      if depth = 0 then .error .underflow
      else if depth - 1 = 0 then .ok (some offset)
      else searchClose (depth - 1) (offset + c.utf8Size) cs
    else searchClose depth (offset + c.utf8Size) cs

/-- The position of the `)` that closes the first `(`, if it is closed. -/
def closingOffset (raw : String) : Except Fault (Option Nat) :=
  match offset? '(' raw.toList with
  | none => .ok none
  | some opening => do
    let list ← slice opening raw.utf8ByteSize raw
    searchClose 0 opening list

theorem slice_of_text {part : List Char} (h : raw.toList = as ++ (part ++ bs)) :
    slice (utf8Size as) (utf8Size (as ++ part)) raw = .ok part := by
  have hslice : slice? (utf8Size as) (utf8Size (as ++ part)) raw = some (String.ofList part) := by
    rw [slice?_eq_some_iff, String.toList_ofList]
    exact ⟨as, bs, h, rfl, rfl⟩
  rw [slice, hslice]
  simp

/-- While no more is closed than was open behind the first `(`, the counter stays above zero and the search
goes on. -/
theorem searchClose_append (h : depthAfter '(' ')' depth as = some depth') (offset : Nat)
    (bs : List Char) :
    searchClose (depth + 1) offset (as ++ bs) = searchClose (depth' + 1) (offset + utf8Size as) bs := by
  induction as generalizing depth offset with
  | nil =>
    rw [Option.some.inj h]
    rfl
  | cons c as ih =>
    rw [List.cons_append, searchClose, utf8Size_cons, ← Nat.add_assoc]
    rw [depthAfter] at h
    by_cases hopen : c = '('
    · rw [if_pos hopen] at h ⊢
      exact ih h _
    by_cases hclose : c = ')'
    · rw [if_neg hopen, if_pos hclose] at h ⊢
      cases depth with
      | zero => exact absurd h (by simp)
      | succ depth =>
        -- a level behind the first `(` is closed
        rw [if_neg (Nat.succ_ne_zero depth)] at h
        rw [if_neg (by simp), if_neg (by simp)]
        exact ih h _
    · rw [if_neg hopen, if_neg hclose] at h ⊢
      exact ih h _

/-- The search begins at the first `(`. -/
theorem closingOffset_of_open (hbefore : '(' ∉ before) (hraw : raw.toList = before ++ '(' :: cs) :
    closingOffset raw = searchClose 1 (utf8Size (before ++ ['('])) cs := by
  have hopening : offset? '(' raw.toList = some (utf8Size before) := by
    rw [hraw, offset?_append_cons hbefore]
  have hlist : slice (utf8Size before) raw.utf8ByteSize raw = .ok ('(' :: cs) := by
    have hsize : raw.utf8ByteSize = utf8Size (before ++ '(' :: cs) := by
      rw [utf8ByteSize_eq, hraw]
    rw [hsize]
    apply slice_of_text
    rw [hraw, List.append_nil]
  rw [closingOffset, hopening]
  simp only [hlist]
  change searchClose 0 (utf8Size before) ('(' :: cs) = _
  rw [searchClose, if_pos rfl, utf8Size_append]
  rfl

theorem closingOffset_of_closed (hbefore : '(' ∉ before)
    (hdepth : depthAfter '(' ')' 0 inside = some 0)
    (hraw : raw.toList = before ++ '(' :: (inside ++ ')' :: rest)) :
    closingOffset raw = .ok (some (utf8Size (before ++ '(' :: inside))) := by
  have hsize : utf8Size (before ++ ['(']) + utf8Size inside = utf8Size (before ++ '(' :: inside) := by
    rw [← utf8Size_append, List.append_assoc, List.singleton_append]
  rw [closingOffset_of_open hbefore hraw, searchClose_append hdepth, hsize]
  rfl

theorem closingOffset_of_unclosed (hbefore : '(' ∉ before)
    (hdepth : depthAfter '(' ')' 0 cs = some depth) (hraw : raw.toList = before ++ '(' :: cs) :
    closingOffset raw = .ok none := by
  have hsearch := searchClose_append hdepth (utf8Size (before ++ ['('])) []
  rw [List.append_nil] at hsearch
  rw [closingOffset_of_open hbefore hraw, hsearch]
  rfl

theorem closingOffset_of_not_mem (h : '(' ∉ raw.toList) : closingOffset raw = .ok none := by
  rw [closingOffset, offset?_eq_none h]

/-- The search finds the end of the kept part. -/
theorem closingOffset_of_splitArguments (h : splitArguments raw.toList = some (cs, rest)) :
    ∃ before inside, '(' ∉ before ∧ cs = before ++ '(' :: (inside ++ [')']) ∧
      raw.toList = before ++ '(' :: (inside ++ ')' :: rest) ∧
      depthAfter '(' ')' 0 inside = some 0 ∧
      closingOffset raw = .ok (some (utf8Size (before ++ '(' :: inside))) := by
  obtain ⟨before, inside, hbefore, hkept, hraw, hdepth⟩ := splitArguments_eq_some_iff.1 h
  exact ⟨before, inside, hbefore, hkept, hraw, hdepth,
    closingOffset_of_closed hbefore hdepth hraw⟩

/-- If there is no kept part, the search finds nothing. -/
theorem closingOffset_of_splitArguments_eq_none (h : splitArguments raw.toList = none) :
    closingOffset raw = .ok none := by
  by_cases hmem : '(' ∈ raw.toList
  · obtain ⟨before, cs, hraw, hbefore⟩ := List.eq_append_cons_of_mem hmem
    rw [hraw, splitArguments_eq_none_iff hbefore] at h
    obtain ⟨depth, hdepth⟩ := h
    exact closingOffset_of_unclosed hbefore hdepth hraw
  · exact closingOffset_of_not_mem hmem

/-- The counter is never lowered below zero, and the first slice is in range. -/
theorem closingOffset_total (raw : String) :
    closingOffset raw = .ok none ∨ ∃ e, closingOffset raw = .ok (some e) := by
  cases hsplit : splitArguments raw.toList with
  | none => exact .inl (closingOffset_of_splitArguments_eq_none hsplit)
  | some parts =>
    obtain ⟨before, inside, -, -, -, -, hfound⟩ := closingOffset_of_splitArguments hsplit
    exact .inr ⟨_, hfound⟩

/-! ## What the search finds -/

/-- A stretch of the text that begins at its first `(` and has as many `)` as `(`. -/
structure EvenStretch (raw : String) (before stretch rest : List Char) : Prop where
  text : raw.toList = before ++ (stretch ++ rest)
  first : '(' ∉ before
  opens : stretch.head? = some '('
  even : stretch.count '(' = stretch.count ')'

/-- No stretch of this kind is shorter. -/
structure ShortestStretch (raw : String) (before stretch rest : List Char) : Prop extends
    EvenStretch raw before stretch rest where
  least : ∀ before' stretch' rest', EvenStretch raw before' stretch' rest' →
    stretch.length ≤ stretch'.length

/-- Such a stretch goes beyond every text behind the first `(` in which no more is closed than opened. -/
theorem EvenStretch.length_lt (h : EvenStretch raw before stretch rest) (has : '(' ∉ as)
    (hraw : raw.toList = as ++ '(' :: (inside ++ bs))
    (hinside : ∀ p, p <+: inside → p.count ')' ≤ p.count '(') :
    before = as ∧ inside.length + 1 < stretch.length := by
  obtain ⟨tail, rfl⟩ := List.head?_eq_some_iff.1 h.opens
  obtain ⟨rfl, htail⟩ := append_cons_inj h.first has (h.text.symm.trans hraw)
  refine ⟨rfl, ?_⟩
  by_contra hlt
  rw [List.length_cons] at hlt
  -- otherwise the stretch would lie in the text, and its first `(` would be one too many
  have htext : tail ++ rest = inside ++ bs := htail
  have hinside' : inside <+: tail ++ rest := by
    rw [htext]
    exact List.prefix_append inside bs
  have hprefix : tail <+: inside :=
    List.prefix_of_prefix_length_le (List.prefix_append tail rest) hinside' (by omega)
  have hle := hinside tail hprefix
  have heven := h.even
  rw [List.count_cons_self, List.count_cons_of_ne (by decide)] at heven
  omega

theorem shortestStretch_of_closed (hbefore : '(' ∉ before)
    (hdepth : depthAfter '(' ')' 0 inside = some 0)
    (hraw : raw.toList = before ++ '(' :: (inside ++ ')' :: rest)) :
    ShortestStretch raw before ('(' :: (inside ++ [')'])) rest := by
  have hbalanced : Balanced '(' ')' inside := (depthAfter_eq_zero_iff (by decide)).1 hdepth
  refine { text := ?text, first := hbefore, opens := rfl, even := ?even, least := ?least }
  case text => rw [hraw, List.cons_append, List.append_assoc, List.singleton_append]
  case even =>
    have hends := hbalanced.ends_at_zero
    simp [hends]
  case least =>
    intro before' stretch' rest' h
    have hlt := (h.length_lt hbefore hraw hbalanced.never_negative).2
    simp only [List.length_cons, List.length_append, List.length_nil]
    omega

/-- The text behind the first `(` never closes it, so no stretch is even. -/
theorem not_evenStretch_of_none (h : splitArguments raw.toList = none) :
    ¬ ∃ before stretch rest, EvenStretch raw before stretch rest := by
  rintro ⟨before, stretch, rest, hstretch⟩
  obtain ⟨tail, rfl⟩ := List.head?_eq_some_iff.1 hstretch.opens
  have hraw : raw.toList = before ++ '(' :: (tail ++ rest) := hstretch.text
  rw [hraw, splitArguments_eq_none_iff hstretch.first] at h
  obtain ⟨depth, hdepth⟩ := h
  obtain ⟨hnever, -⟩ := (depthAfter_eq_some_iff (by decide)).1 hdepth
  simp only [Nat.zero_add] at hnever
  have hraw' : raw.toList = before ++ '(' :: ((tail ++ rest) ++ []) := by
    rw [hraw, List.append_nil]
  have hlt := (hstretch.length_lt hstretch.first hraw' hnever).2
  rw [List.length_cons, List.length_append] at hlt
  omega

/-- A text has one shortest stretch. -/
theorem ShortestStretch.inj {before' stretch' rest' : List Char}
    (h : ShortestStretch raw before stretch rest) (h' : ShortestStretch raw before' stretch' rest') :
    before = before' ∧ stretch = stretch' := by
  have hlength : stretch.length = stretch'.length :=
    Nat.le_antisymm (h.least _ _ _ h'.toEvenStretch) (h'.least _ _ _ h.toEvenStretch)
  obtain ⟨tail, rfl⟩ := List.head?_eq_some_iff.1 h.opens
  obtain ⟨tail', rfl⟩ := List.head?_eq_some_iff.1 h'.opens
  obtain ⟨rfl, htail⟩ := append_cons_inj h.first h'.first (h.text.symm.trans h'.text)
  rw [List.length_cons, List.length_cons, Nat.add_right_cancel_iff] at hlength
  exact ⟨rfl, by rw [(List.append_inj htail hlength).1]⟩

/-- The search finds the last character of the shortest stretch, and this is a `)`. -/
theorem closingOffset_eq_some_iff :
    closingOffset raw = .ok (some e) ↔
      ∃ before stretch rest, ShortestStretch raw before (stretch ++ [')']) rest ∧
        e = utf8Size (before ++ stretch) := by
  cases hsplit : splitArguments raw.toList with
  | none =>
    rw [closingOffset_of_splitArguments_eq_none hsplit]
    constructor
    · intro h
      exact absurd h (by simp)
    · rintro ⟨before, stretch, rest, hshortest, -⟩
      exact absurd ⟨_, _, _, hshortest.toEvenStretch⟩ (not_evenStretch_of_none hsplit)
  | some parts =>
    obtain ⟨before, inside, hbefore, -, hraw, hdepth, hfound⟩ := closingOffset_of_splitArguments hsplit
    have hshortest := shortestStretch_of_closed hbefore hdepth hraw
    rw [hfound]
    constructor
    · intro h
      exact ⟨before, '(' :: inside, _, hshortest, (Option.some.inj (Except.ok.inj h)).symm⟩
    · rintro ⟨before', stretch, rest', hshortest', rfl⟩
      obtain ⟨rfl, hstretch⟩ := hshortest.inj hshortest'
      rw [← List.cons_append] at hstretch
      rw [List.append_cancel_right hstretch]

/-- The search finds nothing exactly if there is no even stretch. -/
theorem closingOffset_eq_none_iff :
    closingOffset raw = .ok none ↔ ¬ ∃ before stretch rest, EvenStretch raw before stretch rest := by
  cases hsplit : splitArguments raw.toList with
  | none =>
    exact iff_of_true (closingOffset_of_splitArguments_eq_none hsplit) (not_evenStretch_of_none hsplit)
  | some parts =>
    obtain ⟨before, inside, hbefore, -, hraw, hdepth, hfound⟩ := closingOffset_of_splitArguments hsplit
    refine iff_of_false (by simp [hfound]) ?_
    rw [not_not]
    exact ⟨_, _, _, (shortestStretch_of_closed hbefore hdepth hraw).toEvenStretch⟩

/-! ## The cut -/

/-- The cut of `throughArguments` with byte positions. -/
def cutAtOffsets (raw : String) : Except Fault (Except SignatureError (List Char)) := do
  match ← closingOffset raw with
  | some e =>
    let rest ← slice (e + 1) raw.utf8ByteSize raw
    match checkBalanced (e + 1) rest with
    | .error imbalance => return .error (.unbalanced imbalance)
    | .ok () =>
      let kept ← slice 0 (e + 1) raw
      return .ok kept
  | none =>
    match lastOffset? ')' raw.toList with
    | some e =>
      let kept ← slice 0 (e + 1) raw
      return .ok kept
    | none => return .error (.invalidFormat raw .noClose)

/-- Both slices at a `)` are in range. -/
theorem slice_through (h : raw.toList = as ++ ')' :: bs) :
    slice 0 (utf8Size as + 1) raw = .ok (as ++ [')']) ∧
      slice (utf8Size as + 1) raw.utf8ByteSize raw = .ok bs := by
  have hsize : utf8Size as + 1 = utf8Size (as ++ [')']) := by
    rw [utf8Size_append]
    rfl
  have hkept : raw.toList = [] ++ ((as ++ [')']) ++ bs) := by
    rw [h, List.append_assoc]
    rfl
  have hrest : raw.toList = (as ++ [')']) ++ (bs ++ []) := by
    rw [h, List.append_nil, List.append_assoc]
    rfl
  have htotal : raw.utf8ByteSize = utf8Size ((as ++ [')']) ++ bs) := by
    rw [utf8ByteSize_eq, hkept, List.nil_append]
  rw [hsize, htotal]
  exact ⟨slice_of_text hkept, slice_of_text hrest⟩

/-- A position that is found is that of a `)`. -/
theorem exists_close_of_found
    (h : closingOffset raw = .ok (some e) ∨ lastOffset? ')' raw.toList = some e) :
    ∃ kept rest, raw.toList = kept ++ ')' :: rest ∧ e = utf8Size kept := by
  rcases h with hfound | hlast
  · obtain ⟨before, stretch, rest, hshortest, rfl⟩ := closingOffset_eq_some_iff.1 hfound
    refine ⟨before ++ stretch, rest, ?_, rfl⟩
    rw [hshortest.text, List.append_assoc, List.append_assoc, List.singleton_append]
  · by_cases hmem : throughLastClose raw.toList = []
    · rw [lastOffset?_eq_none (throughLastClose_eq_nil_iff.1 hmem)] at hlast
      exact absurd hlast (by simp)
    · obtain ⟨kept, rest, hrest, hraw⟩ := exists_of_throughLastClose hmem
      rw [hraw, lastOffset?_append_cons hrest, Option.some.injEq] at hlast
      exact ⟨kept, rest, hraw, hlast.symm⟩

/-- No counter goes below zero, no slice is out of range, and the cut is the same. -/
theorem cutAtOffsets_eq (raw : String) : cutAtOffsets raw = .ok (throughArguments raw) := by
  cases hsplit : splitArguments raw.toList with
  | some parts =>
    obtain ⟨kept, rest⟩ := parts
    obtain ⟨before, inside, -, hkept, hraw, -, hfound⟩ := closingOffset_of_splitArguments hsplit
    have hkept' : kept = (before ++ '(' :: inside) ++ [')'] := by
      rw [hkept, List.append_assoc, List.cons_append]
    have hsize : utf8Size kept = utf8Size (before ++ '(' :: inside) + 1 := by
      rw [hkept', utf8Size_append]
      rfl
    have hraw' : raw.toList = (before ++ '(' :: inside) ++ ')' :: rest := by
      rw [hraw, List.append_assoc, List.cons_append]
    obtain ⟨hcut, hrest⟩ := slice_through hraw'
    rw [← hsize, ← hkept'] at hcut
    rw [← hsize] at hrest
    cases hcheck : checkBalanced (utf8Size kept) rest with
    | ok =>
      rw [throughArguments_of_checked hsplit hcheck]
      simp only [cutAtOffsets, hfound, ← hsize, hrest, hcheck, hcut, bind, Except.bind, pure,
        Except.pure]
    | error imbalance =>
      rw [throughArguments_of_refused hsplit hcheck]
      simp only [cutAtOffsets, hfound, ← hsize, hrest, hcheck, bind, Except.bind, pure, Except.pure]
  | none =>
    have hfound := closingOffset_of_splitArguments_eq_none hsplit
    by_cases hlast : throughLastClose raw.toList = []
    · have hoffset := lastOffset?_eq_none (throughLastClose_eq_nil_iff.1 hlast)
      rw [throughArguments_of_no_close hsplit hlast]
      simp only [cutAtOffsets, hfound, hoffset, bind, Except.bind, pure, Except.pure]
    · obtain ⟨before, rest, hrest, hraw⟩ := exists_of_throughLastClose hlast
      have hoffset : lastOffset? ')' raw.toList = some (utf8Size before) := by
        rw [hraw, lastOffset?_append_cons hrest]
      rw [throughArguments_of_unmatched hsplit hrest hraw]
      simp only [cutAtOffsets, hfound, hoffset, (slice_through hraw).1, bind, Except.bind, pure,
        Except.pure]

/-- The search for the `)` of the first `(` is exact and cannot fail. It finds a position exactly if there is an
even stretch, and this is where the shortest one ends, with a `)`. At this position, and at the last `)`, both
slices are in range, and the cut with byte positions is that of `throughArguments`. -/
theorem closing_parenthesis (raw : String) :
    (∃ found, closingOffset raw = .ok found) ∧
      ((∃ e, closingOffset raw = .ok (some e)) ↔
        ∃ before stretch rest, EvenStretch raw before stretch rest) ∧
      (∀ e, closingOffset raw = .ok (some e) ↔
        ∃ before stretch rest, ShortestStretch raw before (stretch ++ [')']) rest ∧
          e = utf8Size (before ++ stretch)) ∧
      (∀ e, closingOffset raw = .ok (some e) ∨ lastOffset? ')' raw.toList = some e →
        ∃ kept rest, raw.toList = kept ++ ')' :: rest ∧
          slice 0 (e + 1) raw = .ok (kept ++ [')']) ∧
          slice (e + 1) raw.utf8ByteSize raw = .ok rest) ∧
      cutAtOffsets raw = .ok (throughArguments raw) := by
  refine ⟨?total, ?found, fun e => closingOffset_eq_some_iff, ?slices, cutAtOffsets_eq raw⟩
  case total =>
    obtain h | ⟨e, h⟩ := closingOffset_total raw
    · exact ⟨_, h⟩
    · exact ⟨_, h⟩
  case found =>
    rw [← not_iff_not, ← closingOffset_eq_none_iff]
    obtain h | ⟨e, h⟩ := closingOffset_total raw
    · simp [h]
    · simp [h]
  case slices =>
    intro e he
    obtain ⟨kept, rest, hraw, rfl⟩ := exists_close_of_found he
    exact ⟨kept, rest, hraw, slice_through hraw⟩

-- the characters around the parentheses take more than one byte
example : closingOffset "é(π(λ))→)" = .ok (some 9) := by decide +kernel

end AbiSig.Declaration
