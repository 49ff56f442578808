import AbiSig.Proofs.Grammar.Spacing

/-!
# The layout of a declaration does not matter

A text may be laid out anew in two ways: a run of layout becomes another run, and a run appears or
disappears where the spacing drops it anyway, next to a delimiter (`LayoutEdit`).

1. An edit does not change the tidy text (`LayoutEdit.tidy_eq`).
2. Every stage of `normalize` may be given the tidy text instead of the text: the search for the
   argument list (`splitArguments_tidy`, `throughLastClose_tidy`), the check of what is dropped
   (`delimiter_checkBalanced_tidy`), and the reading of the name.
3. So `normalize` does with a text what it does with the tidy text (`sameOutcome_tidy`), and two texts
   that differ by edits fare alike (`normalize_of_layoutEdits`).

Only the quoted input and the byte offset of an error tell the two texts apart: `SameOutcome`.
-/

namespace AbiSig

open Text

namespace Declaration

open Grammar

variable {keep opened gap : Bool} {c : Char} {l as bs cs before inside kept rest : List Char}

/-! ## Edits -/

/-- A run of layout appears behind a delimiter or in front of one. -/
inductive LayoutInsertion : List Char → List Char → Prop where
  | behind {c : Char} {l : List Char} (hc : c ∈ ['(', '[']) (hl : IsRun l)
      (before after : List Char) :
      LayoutInsertion (before ++ c :: after) (before ++ c :: (l ++ after))
  | inFront {c : Char} {l : List Char} (hc : c ∈ [')', ',', ']', '[']) (hl : IsRun l)
      (before after : List Char) :
      LayoutInsertion (before ++ c :: after) (before ++ (l ++ c :: after))

/-- One edit of the layout of a text. -/
inductive LayoutEdit : List Char → List Char → Prop where
  | replace {l l' : List Char} (hne : l ≠ []) (hl : IsRun l) (hne' : l' ≠ []) (hl' : IsRun l')
      (before after : List Char) : LayoutEdit (before ++ (l ++ after)) (before ++ (l' ++ after))
  | insert {as bs : List Char} (h : LayoutInsertion as bs) : LayoutEdit as bs
  | delete {as bs : List Char} (h : LayoutInsertion as bs) : LayoutEdit bs as

/-! ## An edit in the pass -/

/-- A run that is not empty is read as a gap, whatever was read before it. -/
theorem respace_run_of_ne_nil (hne : l ≠ []) (hl : IsRun l) (rest : List Char) :
    respace keep opened gap (l ++ rest) = respace keep opened (!opened) rest := by
  rcases List.exists_cons_of_ne_nil hne with ⟨c, l, rfl⟩
  rw [IsRun, List.forall_mem_cons] at hl
  rw [List.cons_append, respace_layout hl.1]
  cases opened with
  | true => exact respace_run_opened hl.2 rest
  | false => exact respace_run hl.2 rest

/-- A run in front of a delimiter that drops it is forgotten. -/
theorem respace_run_snug (hc : snugBefore c = true) (hlayout : isLayout c = false) (hl : IsRun l)
    (rest : List Char) :
    respace keep opened gap (l ++ c :: rest) = respace keep opened gap (c :: rest) := by
  by_cases hne : l = []
  · rw [hne, List.nil_append]
  · rw [respace_run_of_ne_nil hne hl, respace_snug hc hlayout, respace_snug hc hlayout]

theorem LayoutInsertion.respace_eq (h : LayoutInsertion as bs) :
    respace keep opened gap bs = respace keep opened gap as := by
  cases h with
  | @behind c l hc hl before after =>
    have hchar : isLayout c = false ∧ snugBehind c = true := by
      simp only [List.mem_cons, List.not_mem_nil, or_false] at hc
      rcases hc with rfl | rfl
      · exact ⟨by decide, by decide⟩
      · exact ⟨by decide, by decide⟩
    rw [respace_append_cons hchar.1, respace_append_cons hchar.1, hchar.2, respace_run_opened hl]
  | @inFront c l hc hl before after =>
    have hchar : isLayout c = false ∧ snugBefore c = true := by
      simp only [List.mem_cons, List.not_mem_nil, or_false] at hc
      rcases hc with rfl | rfl | rfl | rfl
      · exact ⟨by decide, by decide⟩
      · exact ⟨by decide, by decide⟩
      · exact ⟨by decide, by decide⟩
      · exact ⟨by decide, by decide⟩
    apply respace_append_congr
    intro opened gap
    exact respace_run_snug hchar.2 hchar.1 hl after

/-- No edit changes the tidy text. -/
theorem LayoutEdit.tidy_eq (h : LayoutEdit as bs) : tidy as = tidy bs := by
  rw [tidy_eq_respace, tidy_eq_respace]
  cases h with
  | replace hne hl hne' hl' before after =>
    apply respace_append_congr
    intro opened gap
    rw [respace_run_of_ne_nil hne hl, respace_run_of_ne_nil hne' hl']
  | insert h => exact h.respace_eq.symm
  | delete h => exact h.respace_eq

theorem tidy_eq_of_layoutEdits (h : Relation.ReflTransGen LayoutEdit as bs) :
    tidy as = tidy bs := by
  induction h with
  | refl => rfl
  | tail _ hedit ih => exact ih.trans hedit.tidy_eq

/-! ## The stages on the tidy text -/

theorem tidy_nil : tidy [] = [] := by
  rw [tidy_eq_respace]
  rfl

theorem tidy_idem (cs : List Char) : tidy (tidy cs) = tidy cs := by
  simp only [tidy_eq_respace]
  exact respace_respace (by simp)

theorem mem_tidy_iff (hc : isLayout c = false) : c ∈ tidy cs ↔ c ∈ cs := by
  rw [tidy_eq_respace]
  constructor
  · intro h
    rcases mem_of_mem_respace h with rfl | ⟨hmem, -⟩
    · exact absurd hc (by decide)
    · exact hmem
  · intro h
    exact mem_respace h hc

/-- A text without `(` has no argument list. -/
theorem splitArguments_of_not_mem (h : '(' ∉ cs) : splitArguments cs = none := by
  have hdrop : cs.dropWhile (· != '(') = [] := by
    rw [List.dropWhile_eq_nil_iff]
    intro c hc
    exact bne_of_mem h hc
  unfold splitArguments
  rw [hdrop]

/-- The tidy text is cut where the text is cut. -/
theorem splitArguments_tidy (cs : List Char) :
    splitArguments (tidy cs) =
      (splitArguments cs).map fun (kept, rest) => (tidy kept, tidy rest) := by
  have hlayout : isLayout '(' = false := by decide
  cases hsplit : splitArguments cs with
  | none =>
    rw [Option.map_none]
    by_cases hmem : '(' ∈ cs
    · -- the counter behind the first `(` sees delimiters only
      rcases List.eq_append_cons_of_mem hmem with ⟨before, tail, rfl, hbefore⟩
      have htidy : tidy (before ++ '(' :: tail) =
          tidy before ++ '(' :: respace true true false tail := by
        simp only [tidy_eq_respace]
        exact respace_append_cons hlayout before tail
      have hbefore' : '(' ∉ tidy before := by rwa [mem_tidy_iff hlayout]
      rw [splitArguments_eq_none_iff hbefore] at hsplit
      rw [htidy, splitArguments_eq_none_iff hbefore', depthAfter_respace]
      exact hsplit
    · apply splitArguments_of_not_mem
      rwa [mem_tidy_iff hlayout]
  | some parts =>
    rcases parts with ⟨kept, rest⟩
    rcases splitArguments_eq_some_iff.1 hsplit with ⟨before, inside, hbefore, rfl, rfl, hdepth⟩
    have htidy : tidy (before ++ '(' :: (inside ++ ')' :: rest)) =
        tidy before ++ '(' :: (argumentText inside ++ ')' :: tidy rest) := by
      simp only [tidy_eq_respace]
      rw [respace_append_cons hlayout, respace_append_cons (by decide)]
      rfl
    rw [Option.map_some]
    refine splitArguments_eq_some_iff.2 ⟨tidy before, argumentText inside, ?_, ?_, htidy, ?_⟩
    · rwa [mem_tidy_iff hlayout]
    · exact tidy_append_open before inside
    · rwa [depthAfter_argumentText]

/-- The last `)` of the tidy text is the last one of the text. -/
theorem throughLastClose_tidy (cs : List Char) :
    throughLastClose (tidy cs) = tidy (throughLastClose cs) := by
  have hlayout : isLayout ')' = false := by decide
  by_cases hnil : throughLastClose cs = []
  · rw [hnil, tidy_nil, throughLastClose_eq_nil_iff, mem_tidy_iff hlayout]
    exact throughLastClose_eq_nil_iff.1 hnil
  · rcases exists_of_throughLastClose hnil with ⟨front, rest, hrest, rfl⟩
    have htidy (rest : List Char) :
        tidy (front ++ ')' :: rest) = respace false false false front ++ ')' :: tidy rest := by
      simp only [tidy_eq_respace]
      exact respace_append_cons hlayout front rest
    have hrest' : ')' ∉ tidy rest := by rwa [mem_tidy_iff hlayout]
    rw [throughLastClose_eq hrest, htidy, throughLastClose_eq hrest', htidy, tidy_nil]

/-! ## The check on the tidy text -/

/-- Where a scan breaks and at which delimiter, the delimiters alone decide; only its offset hangs on
the rest of the text. -/
theorem delimiter_scan_filter (n : Nesting) (offset offset' : Nat) (cs : List Char) :
    (n.scan offset (cs.filter isDelimiter)).mapError Imbalance.delimiter =
      (n.scan offset' cs).mapError Imbalance.delimiter := by
  induction cs generalizing n offset offset' with
  | nil => rfl
  | cons c cs ih =>
    by_cases hc : isDelimiter c = true
    · rw [List.filter_cons_of_pos hc]
      unfold Nesting.scan
      cases n.step c with
      | error delimiter => rfl
      | ok n' => exact ih n' _ _
    · have hstep : n.step c = .ok n := by
        rw [Bool.not_eq_true] at hc
        exact Nesting.step_of_not_isDelimiter hc
      rw [List.filter_cons_of_neg hc, ih n offset (offset' + c.utf8Size)]
      conv_rhs => unfold Nesting.scan
      rw [hstep]

theorem delimiter_finish (n : Nesting) (offset offset' : Nat) :
    (n.finish offset).mapError Imbalance.delimiter =
      (n.finish offset').mapError Imbalance.delimiter := by
  unfold Nesting.finish
  cases n.unclosed? with
  | none => rfl
  | some delimiter => rfl

/-- Two stages that agree but for the details of their errors agree so in sequence. -/
theorem mapError_bind_congr {ε δ α β : Type} {d : ε → δ} {x y : Except ε α} {f g : α → Except ε β}
    (hxy : x.mapError d = y.mapError d) (hfg : ∀ a, (f a).mapError d = (g a).mapError d) :
    (x >>= f).mapError d = (y >>= g).mapError d := by
  cases x with
  | error e =>
    cases y with
    | error e' => exact congrArg Except.error (Except.error.inj hxy)
    | ok b => exact absurd hxy (by simp [Except.mapError])
  | ok a =>
    cases y with
    | error e' => exact absurd hxy (by simp [Except.mapError])
    | ok b =>
      have hab : a = b := Except.ok.inj hxy
      rw [← hab]
      exact hfg a

/-- What is dropped is refused for the same delimiter, tidy or not. -/
theorem delimiter_checkBalanced_tidy (offset offset' : Nat) (cs : List Char) :
    (checkBalanced offset (tidy cs)).mapError Imbalance.delimiter =
      (checkBalanced offset' cs).mapError Imbalance.delimiter := by
  have hscan : (Nesting.scan {} offset (tidy cs)).mapError Imbalance.delimiter =
      (Nesting.scan {} offset' cs).mapError Imbalance.delimiter := by
    rw [← delimiter_scan_filter {} offset offset, tidy_eq_respace, filter_isDelimiter_respace,
      delimiter_scan_filter {} offset offset']
  unfold checkBalanced
  apply mapError_bind_congr hscan
  intro n
  exact delimiter_finish n _ _

end Declaration

open Declaration

/-! ## The whole -/

/-- Two texts fare alike: they have the same normal form, or they fail for the same reason. What the
error quotes and the offset it gives may differ. -/
inductive SameOutcome :
    Except SignatureError Normalized → Except SignatureError Normalized → Prop where
  | normalized (n : Normalized) : SameOutcome (.ok n) (.ok n)
  | invalidFormat (input input' : String) (fault : FormatFault) :
      SameOutcome (.error (.invalidFormat input fault)) (.error (.invalidFormat input' fault))
  | unbalanced (delimiter : Delimiter) (offset offset' : Nat) :
      SameOutcome (.error (.unbalanced { delimiter, offset }))
        (.error (.unbalanced { delimiter, offset := offset' }))

theorem SameOutcome.symm {x y : Except SignatureError Normalized} (h : SameOutcome x y) :
    SameOutcome y x := by
  cases h with
  | normalized n => exact SameOutcome.normalized n
  | invalidFormat input input' fault => exact SameOutcome.invalidFormat input' input fault
  | unbalanced delimiter offset offset' => exact SameOutcome.unbalanced delimiter offset' offset

theorem SameOutcome.trans {x y z : Except SignatureError Normalized} (hxy : SameOutcome x y)
    (hyz : SameOutcome y z) : SameOutcome x z := by
  cases hxy with
  | normalized n => exact hyz
  | invalidFormat input input' fault =>
    cases hyz with
    | invalidFormat _ input'' _ => exact SameOutcome.invalidFormat input input'' fault
  | unbalanced delimiter offset offset' =>
    cases hyz with
    | unbalanced _ _ offset'' => exact SameOutcome.unbalanced delimiter offset offset''

variable {raw raw' : String} {kept : List Char}

/-- The stages behind the cut make no difference between a text and the tidy one. -/
theorem sameOutcome_of_cut (hcut : throughArguments raw = .ok kept)
    (hcut' : throughArguments raw' = .ok (tidy kept)) :
    SameOutcome (normalize raw') (normalize raw) := by
  have htidy : tidy (trimStart (tidy kept)) = tidy (trimStart kept) := by
    rw [← tidy_trimStart, tidy_idem]
  unfold normalize
  rw [hcut, hcut']
  simp only [bind, Except.bind, htidy]
  cases Normalized.ofTidy (trimStart (dropKeywords (tidy (trimStart kept)))) with
  | ok n => exact SameOutcome.normalized n
  | error fault => exact SameOutcome.invalidFormat raw' raw fault

/-- The two texts are cut at the matching `)`: they are refused for the same delimiter, or both are
cut there. -/
theorem sameOutcome_of_parts {rest : List Char}
    (hparts : splitArguments raw.toList = some (kept, rest))
    (hparts' : splitArguments raw'.toList = some (tidy kept, tidy rest)) :
    SameOutcome (normalize raw') (normalize raw) := by
  have hsame := delimiter_checkBalanced_tidy (utf8Size (tidy kept)) (utf8Size kept) rest
  cases hcheck : checkBalanced (utf8Size kept) rest with
  | ok =>
    cases hcheck' : checkBalanced (utf8Size (tidy kept)) (tidy rest) with
    | ok =>
      exact sameOutcome_of_cut (throughArguments_of_checked hparts hcheck)
        (throughArguments_of_checked hparts' hcheck')
    | error imbalance' =>
      rw [hcheck, hcheck'] at hsame
      exact absurd hsame (by simp [Except.mapError])
  | error imbalance =>
    cases hcheck' : checkBalanced (utf8Size (tidy kept)) (tidy rest) with
    | ok =>
      rw [hcheck, hcheck'] at hsame
      exact absurd hsame (by simp [Except.mapError])
    | error imbalance' =>
      rw [hcheck, hcheck'] at hsame
      have hdelimiter : imbalance'.delimiter = imbalance.delimiter := Except.error.inj hsame
      rw [normalize_of_cut_error (throughArguments_of_refused hparts hcheck),
        normalize_of_cut_error (throughArguments_of_refused hparts' hcheck')]
      rcases imbalance with ⟨delimiter, offset⟩
      rcases imbalance' with ⟨_, offset'⟩
      cases hdelimiter
      exact SameOutcome.unbalanced delimiter offset' offset

/-- No `)` matches: both texts are cut at their last one, or neither has one. -/
theorem sameOutcome_of_unclosed (hparts : splitArguments raw.toList = none)
    (hparts' : splitArguments raw'.toList = none)
    (hlast : throughLastClose raw'.toList = tidy (throughLastClose raw.toList))
    (hclose : ')' ∈ raw'.toList ↔ ')' ∈ raw.toList) :
    SameOutcome (normalize raw') (normalize raw) := by
  by_cases hmem : ')' ∈ raw.toList
  · have hne : throughLastClose raw.toList ≠ [] := by
      rwa [ne_eq, throughLastClose_eq_nil_iff, not_not]
    have hne' : throughLastClose raw'.toList ≠ [] := by
      rwa [ne_eq, throughLastClose_eq_nil_iff, not_not, hclose]
    have hcut' := throughArguments_of_unclosed hparts' hne'
    rw [hlast] at hcut'
    exact sameOutcome_of_cut (throughArguments_of_unclosed hparts hne) hcut'
  · have hnil : throughLastClose raw.toList = [] := throughLastClose_eq_nil_iff.2 hmem
    have hnil' : throughLastClose raw'.toList = [] := by
      rwa [throughLastClose_eq_nil_iff, hclose]
    rw [normalize_of_cut_error (throughArguments_of_no_close hparts hnil),
      normalize_of_cut_error (throughArguments_of_no_close hparts' hnil')]
    exact SameOutcome.invalidFormat raw' raw .noClose

/-- A text fares like the tidy text. -/
theorem sameOutcome_tidy (raw : String) :
    SameOutcome (normalize (String.ofList (tidy raw.toList))) (normalize raw) := by
  have hsplit := splitArguments_tidy raw.toList
  have hlast := throughLastClose_tidy raw.toList
  have hclose : ')' ∈ tidy raw.toList ↔ ')' ∈ raw.toList := mem_tidy_iff (by decide)
  rw [← String.toList_ofList (l := tidy raw.toList)] at hsplit hlast hclose
  cases hparts : splitArguments raw.toList with
  | some parts =>
    rw [hparts, Option.map_some] at hsplit
    exact sameOutcome_of_parts hparts hsplit
  | none =>
    rw [hparts, Option.map_none] at hsplit
    exact sameOutcome_of_unclosed hparts hsplit hlast hclose

/-- Any number of layout edits leaves the outcome as it is. -/
theorem normalize_of_layoutEdits {raw raw' : String}
    (h : Relation.ReflTransGen LayoutEdit raw.toList raw'.toList) :
    SameOutcome (normalize raw) (normalize raw') := by
  have hraw' := sameOutcome_tidy raw'
  rw [← tidy_eq_of_layoutEdits h] at hraw'
  exact (sameOutcome_tidy raw).symm.trans hraw'

/-- A declaration laid out anew at four places, and one whose dropped text is not balanced: there
only the offset of the error changes. -/
theorem normalize_of_layoutEdits_relaid :
    SameOutcome (normalize "function f( uint256[]\txs)") (normalize "function\r\n f(uint256 [] xs)") ∧
      normalize "function f( uint256[]\txs)" = .ok ⟨"f", "uint256[] xs"⟩ ∧
      SameOutcome (normalize "f(a)]") (normalize "f( a)]") ∧
      normalize "f(a)]" = .error (.unbalanced { delimiter := .closeBracket, offset := 4 }) ∧
      normalize "f( a)]" = .error (.unbalanced { delimiter := .closeBracket, offset := 5 }) := by
  have hlineEnd : LayoutEdit "function f( uint256[]\txs)".toList
      "function\r\n f( uint256[]\txs)".toList :=
    @LayoutEdit.replace [' '] ['\r', '\n', ' '] (by decide) (by decide) (by decide) (by decide)
      "function".toList "f( uint256[]\txs)".toList
  have hbehind : LayoutEdit "function\r\n f( uint256[]\txs)".toList
      "function\r\n f(uint256[]\txs)".toList :=
    LayoutEdit.delete (@LayoutInsertion.behind '(' [' '] (by decide) (by decide)
      "function\r\n f".toList "uint256[]\txs)".toList)
  have hinFront : LayoutEdit "function\r\n f(uint256[]\txs)".toList
      "function\r\n f(uint256 []\txs)".toList :=
    LayoutEdit.insert (@LayoutInsertion.inFront '[' [' '] (by decide) (by decide)
      "function\r\n f(uint256".toList "]\txs)".toList)
  have htab : LayoutEdit "function\r\n f(uint256 []\txs)".toList
      "function\r\n f(uint256 [] xs)".toList :=
    @LayoutEdit.replace ['\t'] [' '] (by decide) (by decide) (by decide) (by decide)
      "function\r\n f(uint256 []".toList "xs)".toList
  have hdropped : LayoutEdit "f(a)]".toList "f( a)]".toList :=
    LayoutEdit.insert (@LayoutInsertion.behind '(' [' '] (by decide) (by decide) "f".toList
      "a)]".toList)
  refine ⟨normalize_of_layoutEdits ?_, by decide +kernel, normalize_of_layoutEdits ?_,
    by decide +kernel, by decide +kernel⟩
  · exact (((Relation.ReflTransGen.single hlineEnd).tail hbehind).tail hinFront).tail htab
  · exact Relation.ReflTransGen.single hdropped

end AbiSig
