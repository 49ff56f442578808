/-!
# Blank characters

Two notions of white space over `List Char`:

* `isBlank`: the Unicode property `White_Space`; trimming and the removal of blanks use it.
* `isLayout`: space, tab, carriage return and line feed, the blanks that lay out source text; only
  these separate words in a declaration.

`trim` removes blanks at both ends and nothing else.
-/

namespace AbiSig.Text

/-- What holds of all characters of a text is decided by going through the text, not through all
characters. -/
instance (priority := high) decidableForallMem {p : Char → Prop} [DecidablePred p]
    (cs : List Char) : Decidable (∀ c ∈ cs, p c) :=
  List.decidableBAll p cs

/-! ## Classes -/

/-- The ranges of code points with the property `White_Space`, in ascending order. -/
def blankRanges : List (Nat × Nat) :=
  [(0x9, 0xD), (0x20, 0x20), (0x85, 0x85), (0xA0, 0xA0), (0x1680, 0x1680), (0x2000, 0x200A),
   (0x2028, 0x2029), (0x202F, 0x202F), (0x205F, 0x205F), (0x3000, 0x3000)]

/-- Whether `c` has the Unicode property `White_Space`. -/
def isBlank (c : Char) : Bool :=
  blankRanges.any fun (first, last) => first ≤ c.toNat && c.toNat ≤ last

/-- Whether `c` is one of the blanks that lay out source text: space, tab, CR or LF. -/
def isLayout (c : Char) : Bool :=
  c == ' ' || c == '\t' || c == '\r' || c == '\n'

/-- Every layout character is blank. -/
theorem isBlank_of_isLayout {c : Char} (h : isLayout c = true) : isBlank c = true := by
  simp only [isLayout, Bool.or_eq_true, beq_iff_eq] at h
  rcases h with ((rfl | rfl) | rfl) | rfl <;> decide

/-! ## Trimming -/

/-- The text without its leading blanks. -/
def trimStart (cs : List Char) : List Char :=
  cs.dropWhile isBlank

/-- The text without its trailing blanks. -/
def trimEnd (cs : List Char) : List Char :=
  (cs.reverse.dropWhile isBlank).reverse

/-- The text without the blanks at its ends. -/
def trim (cs : List Char) : List Char :=
  trimEnd (trimStart cs)

/-- The text without any blank. -/
def removeBlanks (cs : List Char) : List Char :=
  cs.filter fun c => !isBlank c

theorem not_isBlank_of_mem_removeBlanks {c : Char} {cs : List Char} (h : c ∈ removeBlanks cs) :
    isBlank c = false := by
  simpa using (List.mem_filter.1 h).2

theorem removeBlanks_cons_blank {c : Char} (hc : isBlank c = true) (cs : List Char) :
    removeBlanks (c :: cs) = removeBlanks cs := by
  simp [removeBlanks, hc]

theorem removeBlanks_cons {c : Char} (hc : isBlank c = false) (cs : List Char) :
    removeBlanks (c :: cs) = c :: removeBlanks cs := by
  simp [removeBlanks, hc]

/-- A text without blanks stays as it is. -/
theorem removeBlanks_eq_self {cs : List Char} (h : ∀ c ∈ cs, isBlank c = false) :
    removeBlanks cs = cs := by
  apply List.filter_eq_self.2
  intro c hc
  simp [h c hc]

@[simp]
theorem removeBlanks_append (as bs : List Char) :
    removeBlanks (as ++ bs) = removeBlanks as ++ removeBlanks bs :=
  List.filter_append ..

/-- Removing blanks a second time changes nothing. -/
@[simp]
theorem removeBlanks_removeBlanks (cs : List Char) :
    removeBlanks (removeBlanks cs) = removeBlanks cs := by
  simp [removeBlanks]

end AbiSig.Text
