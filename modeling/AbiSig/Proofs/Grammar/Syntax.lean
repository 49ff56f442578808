import AbiSig.Proofs.Declaration.Header
import AbiSig.Proofs.Declaration.Indexed

/-!
# The grammar of declarations

What a Solidity declaration looks like, as syntax and as text:

* `Tree .type`, `Tree .members`: types, and the members of a tuple.
* `Parameter`: a type with the words behind it (a name, `memory`, `indexed`).
* `Written`: the texts that write a tree. A `Style` says which layout may stand where: `Style.free`
  allows any, `Style.tidy` what is left of it in a normal form.
* `WrittenDeclaration`: the texts that write a whole declaration.

`Tree.compact` is the text without any layout, the form in which a type stands in a signature.
-/

namespace AbiSig.Grammar

open Text Declaration

/-! ## Words -/

/-- Whether the character can stand in a word. -/
def isWordChar (c : Char) : Bool :=
  !isBlank c && !isDelimiter c && c != ','

/-- A word is not empty and has no blanks, delimiters and commas. -/
structure Word where
  chars : List Char
  ne_nil : chars ≠ []
  plain : ∀ c ∈ chars, isWordChar c = true

/-! ## Types and parameters -/

/-- The two sorts of trees. -/
inductive Part where
  | type
  | members

/-- Types and the members of a tuple, of which there is at least one. -/
inductive Tree : Part → Type where
  | base (w : Word) (h : w.chars ≠ indexedWord) : Tree .type
  | tuple (ms : Tree .members) : Tree .type
  | array (t : Tree .type) (digits : List Char) (h : ∀ d ∈ digits, d.isDigit = true) : Tree .type
  | last (t : Tree .type) : Tree .members
  | more (t : Tree .type) (ms : Tree .members) : Tree .members

/-- The text without layout. -/
def Tree.compact {part : Part} : Tree part → List Char
  | .base w _ => w.chars
  | .tuple ms => '(' :: (ms.compact ++ [')'])
  | .array t digits _ => t.compact ++ '[' :: (digits ++ [']'])
  | .last t => t.compact
  | .more t ms => t.compact ++ ',' :: ms.compact

/-- A type and the words behind it. -/
structure Parameter where
  type : Tree .type
  words : List Word

/-! ## Layout -/

/-- The text is a run of layout, or empty. -/
def IsRun (l : List Char) : Prop :=
  ∀ c ∈ l, isLayout c = true

instance (l : List Char) : Decidable (IsRun l) :=
  inferInstanceAs (Decidable (∀ c ∈ l, isLayout c = true))

/-- Which layout a text may have. -/
structure Style where
  /-- Behind `(` and `[`, and before `)`, `]`, `[` and a comma. -/
  snug : List Char → Prop
  /-- Behind a comma. -/
  loose : List Char → Prop
  /-- Before a word. -/
  apart : List Char → Prop

/-- Any layout, as long as words stand apart. -/
def Style.free : Style where
  snug := IsRun
  loose := IsRun
  apart l := l ≠ [] ∧ IsRun l

/-- One space before a word, one or none behind a comma, none anywhere else. -/
def Style.tidy : Style where
  snug l := l = []
  loose l := ∃ b, l = space b
  apart l := l = [' ']

/-! ## Texts -/

/-- The texts that write a tree. -/
inductive Written (s : Style) : {part : Part} → Tree part → List Char → Prop where
  | base (w : Word) (h : w.chars ≠ indexedWord) : Written s (.base w h) w.chars
  | tuple {ms : Tree .members} {l₁ text l₂ : List Char} (h₁ : s.snug l₁) (hms : Written s ms text)
      (h₂ : s.snug l₂) : Written s (.tuple ms) ('(' :: (l₁ ++ (text ++ (l₂ ++ [')']))))
  | array {t : Tree .type} {text l₁ l₂ digits l₃ : List Char} (ht : Written s t text)
      (h₁ : s.snug l₁) (h₂ : s.snug l₂) (hdigits : ∀ d ∈ digits, d.isDigit = true)
      (h₃ : s.snug l₃) :
      Written s (.array t digits hdigits) (text ++ (l₁ ++ '[' :: (l₂ ++ (digits ++ (l₃ ++ [']'])))))
  | last {t : Tree .type} {text : List Char} (ht : Written s t text) : Written s (.last t) text
  | more {t : Tree .type} {ms : Tree .members} {text l₁ l₂ others : List Char}
      (ht : Written s t text) (h₁ : s.snug l₁) (h₂ : s.loose l₂) (hms : Written s ms others) :
      Written s (.more t ms) (text ++ (l₁ ++ ',' :: (l₂ ++ others)))

/-- The texts that write the words behind a type. -/
inductive WrittenWords (s : Style) : List Word → List Char → Prop where
  | nil : WrittenWords s [] []
  | cons {w : Word} {ws : List Word} {l others : List Char} (h : s.apart l)
      (hws : WrittenWords s ws others) : WrittenWords s (w :: ws) (l ++ (w.chars ++ others))

/-- The texts that write one or more parameters. -/
inductive WrittenParameters (s : Style) : List Parameter → List Char → Prop where
  | last {p : Parameter} {text words : List Char} (ht : Written s p.type text)
      (hws : WrittenWords s p.words words) : WrittenParameters s [p] (text ++ words)
  | more {p : Parameter} {ps : List Parameter} {text words l₁ l₂ others : List Char}
      (ht : Written s p.type text) (hws : WrittenWords s p.words words) (h₁ : s.snug l₁)
      (h₂ : s.loose l₂) (hps : WrittenParameters s ps others) :
      WrittenParameters s (p :: ps) (text ++ (words ++ (l₁ ++ ',' :: (l₂ ++ others))))

/-- The texts that may stand between the parentheses of a parameter list. -/
inductive WrittenList (s : Style) : List Parameter → List Char → Prop where
  | empty {l₁ l₂ : List Char} (h₁ : s.snug l₁) (h₂ : s.snug l₂) : WrittenList s [] (l₁ ++ l₂)
  | parameters {ps : List Parameter} {l₁ text l₂ : List Char} (h₁ : s.snug l₁)
      (hps : WrittenParameters s ps text) (h₂ : s.snug l₂) : WrittenList s ps (l₁ ++ (text ++ l₂))

/-- A keyword in front of the name may be missing; where it stands, layout follows. -/
inductive WrittenKeyword (keyword : List Char) : List Char → Prop where
  | missing : WrittenKeyword keyword []
  | present {l : List Char} (hne : l ≠ []) (hl : IsRun l) : WrittenKeyword keyword (keyword ++ l)

/-- The text of a whole declaration: layout, the keywords, the name and the parameter list. -/
inductive WrittenDeclaration (name : List Char) (ps : List Parameter) : List Char → Prop where
  | mk {start function event gap list : List Char} (hstart : IsRun start)
      (hfunction : WrittenKeyword "function".toList function)
      (hevent : WrittenKeyword "event".toList event) (hgap : IsRun gap)
      (hlist : WrittenList .free ps list) :
      WrittenDeclaration name ps
        (start ++ (function ++ (event ++ (name ++ (gap ++ '(' :: (list ++ [')']))))))

/-! ## Characters -/

variable {s : Style} {part : Part} {t : Tree part} {c : Char} {text : List Char}

theorem not_isBlank_of_isWordChar (h : isWordChar c = true) : isBlank c = false := by
  simp only [isWordChar, Bool.and_eq_true, Bool.not_eq_true'] at h
  exact h.1.1

theorem not_isDelimiter_of_isWordChar (h : isWordChar c = true) : isDelimiter c = false := by
  simp only [isWordChar, Bool.and_eq_true, Bool.not_eq_true'] at h
  exact h.1.2

theorem ne_comma_of_isWordChar (h : isWordChar c = true) : c ≠ ',' := by
  rintro rfl
  exact absurd h (by decide)

theorem isWordChar_of_isDigit (h : c.isDigit = true) : isWordChar c = true := by
  have hpart : isIdentifierPart c = true := by simp [isIdentifierPart, Char.isAlphanum, h]
  have hblank : isBlank c = false := not_isBlank_of_isIdentifierPart hpart
  have hdelimiter : isDelimiter c = false := by
    rw [← Bool.not_eq_true]
    intro hc
    simp only [isDelimiter, Bool.or_eq_true, beq_iff_eq] at hc
    rcases hc with ((rfl | rfl) | rfl) | rfl <;> exact absurd h (by decide)
  have hcomma : (c != ',') = true := by
    rw [bne_iff_ne]
    rintro rfl
    exact absurd h (by decide)
  simp [isWordChar, hblank, hdelimiter, hcomma]

theorem Written.ne_nil (h : Written s t text) : text ≠ [] := by
  induction h with
  | base w => exact w.ne_nil
  | tuple => simp
  | array => simp
  | last _ ih => exact ih
  | more => simp

/-! ## Blanks -/

theorem layout_of_word {cs : List Char} (hcs : ∀ c ∈ cs, isWordChar c = true) :
    ∀ c ∈ cs, isBlank c = true → isLayout c = true := by
  intro c hc hblank
  rw [not_isBlank_of_isWordChar (hcs c hc)] at hblank
  exact absurd hblank (by simp)

theorem layout_of_run {l : List Char} (hl : IsRun l) :
    ∀ c ∈ l, isBlank c = true → isLayout c = true :=
  fun c hc _ => hl c hc

/-- All blanks of a written text are layout. -/
theorem Written.layout (h : Written .free t text) :
    ∀ c ∈ text, isBlank c = true → isLayout c = true := by
  induction h with
  | base w => exact layout_of_word w.plain
  | tuple h₁ hms h₂ ih =>
    simp only [List.forall_mem_cons, List.forall_mem_append]
    exact ⟨by decide, layout_of_run h₁, ih, layout_of_run h₂, by decide⟩
  | array ht h₁ h₂ hdigits h₃ ih =>
    have hplain := layout_of_word fun d hd => isWordChar_of_isDigit (hdigits d hd)
    simp only [List.forall_mem_cons, List.forall_mem_append]
    exact ⟨ih, layout_of_run h₁, by decide, layout_of_run h₂, hplain, layout_of_run h₃, by decide⟩
  | last ht ih => exact ih
  | more ht h₁ h₂ hms ih₁ ih₂ =>
    simp only [List.forall_mem_cons, List.forall_mem_append]
    exact ⟨ih₁, layout_of_run h₁, by decide, layout_of_run h₂, ih₂⟩

theorem WrittenWords.layout {ws : List Word} (h : WrittenWords .free ws text) :
    ∀ c ∈ text, isBlank c = true → isLayout c = true := by
  induction h with
  | nil => simp
  | @cons w ws l others hl hws ih =>
    simp only [List.forall_mem_append]
    exact ⟨layout_of_run hl.2, layout_of_word w.plain, ih⟩

theorem WrittenParameters.layout {ps : List Parameter} (h : WrittenParameters .free ps text) :
    ∀ c ∈ text, isBlank c = true → isLayout c = true := by
  induction h with
  | last ht hws =>
    rw [List.forall_mem_append]
    exact ⟨ht.layout, hws.layout⟩
  | more ht hws h₁ h₂ hps ih =>
    simp only [List.forall_mem_cons, List.forall_mem_append]
    exact ⟨ht.layout, hws.layout, layout_of_run h₁, by decide, layout_of_run h₂, ih⟩

theorem WrittenList.layout {ps : List Parameter} (h : WrittenList .free ps text) :
    ∀ c ∈ text, isBlank c = true → isLayout c = true := by
  cases h with
  | empty h₁ h₂ =>
    rw [List.forall_mem_append]
    exact ⟨layout_of_run h₁, layout_of_run h₂⟩
  | parameters h₁ hps h₂ =>
    simp only [List.forall_mem_append]
    exact ⟨layout_of_run h₁, hps.layout, layout_of_run h₂⟩

end AbiSig.Grammar
