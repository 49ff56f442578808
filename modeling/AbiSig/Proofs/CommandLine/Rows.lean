import AbiSig.CommandLine.Report
import AbiSig.Proofs.Hex.Language
import AbiSig.Proofs.Interface.Language
import AbiSig.Proofs.Text.Fields

/-!
# Rows and lines

What a declaration holds never breaks a row or a line:

1. **Rows**: a signature holds no blank, and neither do its selector and its kind. So a row splits at
   its spaces into these three, and the signature stands in one column (`shows_row`).
2. **Lines**: what is written line by line, and holds no other line feeds, is split into the same
   lines (`hasLines_unlines`) and into no others (`HasLines.inj`).
-/

namespace AbiSig.CommandLine

open Text

variable {raw s t : String} {i : Interface} {ls : List String}

/-! ## Rows -/

/-- The row shows the interface: it splits at its spaces into selector, kind and signature and in no
other way, and the signature begins behind 20 bytes. -/
structure Shows (row : String) (i : Interface) : Prop where
  fields : ∀ fields, SplitsAtSpaces row.toList fields ↔
    fields = [i.selector.toHex.toList, i.kind.word.toList, i.signature.text.toList]
  column : ∃ front, row.toList = front ++ i.signature.text.toList ∧ utf8Size front = 20

/-- A printed selector is ten bytes of text without blanks. -/
theorem toHex_plain (selector : Selector) :
    (∀ c ∈ selector.toHex.toList, isBlank c = false) ∧ utf8Size selector.toHex.toList = 10 := by
  have hdigits : ∀ c ∈ Hex.encode selector.bytes.toList, c ∈ Hex.hexDigits :=
    fun c => Hex.mem_hexDigits_of_mem_encode
  have hplain : ∀ c ∈ '0' :: 'x' :: Hex.hexDigits, isBlank c = false := by decide
  have hlength := (Hex.bytes_of_hexDigits hdigits).1
  rw [length_utf8Bytes, Hex.length_encode, Vector.length_toList] at hlength
  unfold Selector.toHex hexText
  rw [String.toList_ofList]
  constructor
  · intro c hc
    apply hplain
    simp only [List.mem_cons] at hc ⊢
    exact hc.imp id (Or.imp id (hdigits c))
  · rw [utf8Size_cons, utf8Size_cons, hlength]
    rfl

/-- The column of the kind holds the word and then spaces. -/
theorem inColumn_plain (kind : Kind) :
    ∃ n, (kind.inColumn kindColumn).toList = kind.word.toList ++ List.replicate n ' ' ∧
      utf8Size (kind.inColumn kindColumn).toList = 6 := by
  cases kind with
  | method => exact ⟨0, rfl, rfl⟩
  | event => exact ⟨1, rfl, rfl⟩

/-- The word for a kind is a field of its own. -/
theorem word_plain (kind : Kind) (cs : List Char) :
    ' ' ∉ kind.word.toList ∧ (kind.word.toList ++ cs).head? ≠ some ' ' := by
  cases kind with
  | method => exact ⟨by decide, by simp [Kind.word]⟩
  | event => exact ⟨by decide, by simp [Kind.word]⟩

/-- The signature of an accepted declaration holds no blank. -/
theorem not_isBlank_of_mem_signature (h : canonicalize raw = .ok i) :
    ∀ c ∈ i.signature.text.toList, isBlank c = false := by
  obtain ⟨n, types, -, -, rfl⟩ := canonicalize_eq_ok_iff.1 h
  exact fun c => Signature.not_isBlank_of_mem_assemble

/-- The fields of a row, with the runs of spaces between them. -/
theorem exists_toList_row (i : Interface) :
    ∃ n, (row i).toList = i.selector.toHex.toList ++ (List.replicate 2 ' ' ++
      (i.kind.word.toList ++ (List.replicate (n + 2) ' ' ++ i.signature.text.toList))) := by
  obtain ⟨n, hkind, -⟩ := inColumn_plain i.kind
  refine ⟨n, ?_⟩
  simp [row, hkind, List.replicate_add]

theorem shows_row (h : canonicalize raw = .ok i) : Shows (row i) i := by
  have hsignature : ' ' ∉ i.signature.text.toList := fun hspace =>
    absurd (not_isBlank_of_mem_signature h ' ' hspace) (by decide)
  obtain ⟨hselector, hselectorSize⟩ := toHex_plain i.selector
  constructor
  case fields =>
    have hspace : ' ' ∉ i.selector.toHex.toList := fun hspace =>
      absurd (hselector ' ' hspace) (by decide)
    obtain ⟨n, hrow⟩ := exists_toList_row i
    rw [hrow]
    intro fields
    have hlast := SplitsAtSpaces.last hsignature
    have hkind := hlast.run (n + 1) (word_plain i.kind []).1 (mt List.mem_of_head? hsignature)
    exact (hkind.run 1 hspace (word_plain i.kind _).2).iff_eq
  case column =>
    obtain ⟨n, -, hkindSize⟩ := inColumn_plain i.kind
    refine ⟨i.selector.toHex.toList ++ (' ' :: ' ' ::
      ((i.kind.inColumn kindColumn).toList ++ [' ', ' '])), by simp [row], ?_⟩
    simp only [utf8Size_append, utf8Size_cons, utf8Size_nil, hselectorSize, hkindSize]
    rfl

/-! ## Lines -/

/-- The text stands on one line. -/
def OneLine (s : String) : Prop :=
  '\n' ∉ s.toList

instance : DecidablePred OneLine := fun s => inferInstanceAs (Decidable ('\n' ∉ s.toList))

/-- The text is made of the lines, each with a line feed behind it, and has no other line feeds. -/
def HasLines (s : String) (ls : List String) : Prop :=
  s.toList.splitOn '\n' = ls.map String.toList ++ [[]]

/-- A text is made of its lines only. -/
theorem HasLines.inj {ls' : List String} (h : HasLines s ls) (h' : HasLines s ls') : ls = ls' := by
  unfold HasLines at h h'
  rw [h, List.append_cancel_right_eq] at h'
  exact (List.map_inj_right fun _ _ => String.toList_inj.1).1 h'

theorem OneLine.append (hs : OneLine s) (ht : OneLine t) : OneLine (s ++ t) := by
  unfold OneLine
  rw [String.toList_append, List.mem_append, not_or]
  exact ⟨hs, ht⟩

theorem oneLine_toString (n : Nat) : OneLine (toString n) := by
  intro hfeed
  have hdigit : '\n' ∈ Nat.toDigits 10 n := by
    rwa [← Nat.toList_repr]
  exact absurd (Nat.isDigit_of_mem_toDigits (by decide) (by decide) hdigit) (by decide)

theorem hasLines_unlines (h : ∀ l ∈ ls, OneLine l) : HasLines (unlines ls) ls := by
  induction ls with
  | nil => rfl
  | cons l ls ih =>
    rw [List.forall_mem_cons] at h
    have htext : (unlines (l :: ls)).toList = l.toList ++ '\n' :: (unlines ls).toList := by
      simp [unlines, String.join_cons]
    have hline : ∀ c ∈ l.toList, (c == '\n') = false := by
      intro c hc
      rw [beq_eq_false_iff_ne]
      rintro rfl
      exact h.1 hc
    have hrest : HasLines (unlines ls) ls := ih h.2
    unfold HasLines at hrest ⊢
    unfold List.splitOn at hrest ⊢
    rw [htext, List.splitOnP_append_cons_of_forall_mem hline '\n' (by decide), hrest]
    rfl

/-- The row of an interface holds no line feed. -/
theorem oneLine_row (h : canonicalize raw = .ok i) : OneLine (row i) := by
  have hsignature := not_isBlank_of_mem_signature h
  have hselector := (toHex_plain i.selector).1
  have hline {s : String} (hs : ∀ c ∈ s.toList, isBlank c = false) : OneLine s :=
    fun hfeed => absurd (hs '\n' hfeed) (by decide)
  have hkind : OneLine (i.kind.inColumn kindColumn) := by
    cases i.kind <;> decide
  exact ((((hline hselector).append (by decide)).append hkind).append (by decide)).append
    (hline hsignature)

end AbiSig.CommandLine
