import AbiSig.Proofs.Declaration.Types
import AbiSig.Proofs.Grammar.Syntax

/-!
# The word `indexed` in a written parameter list

In a tidily written parameter list the word `indexed` stands between two spaces only where the scan
has passed the type of a parameter. `Kept` says so along the scan.

* `Kept.of_indexed`, `typesFrom_indexed`: one replacement keeps this, and the types.
* `Kept.map_typeOf_pieces`: so `removeIndexed` keeps the types.
* `WrittenParameters.kept`: a tidily written list is of this kind.
-/

namespace AbiSig.Grammar

open Text Declaration

variable {n : Nesting} {c : Char} {started complete : Bool} {part : Part} {t : Tree part}
  {reversed as bs cs text words rest before after : List Char} {ws : List Word}
  {ps : List Parameter}

/-! ## The invariant -/

/-- What the scan remembers of a type after the character `c`: whether it has begun. -/
def startedAfter (n : Nesting) (started : Bool) (c : Char) : Bool :=
  if (n.next c).isTopLevel ∧ c = ',' then false
  else if (n.next c).isTopLevel ∧ c = ' ' then started
  else true

/-- At every space of the text, the scan stands at top level behind the beginning of a type, or the
word `indexed` and another space do not follow. -/
def Kept (n : Nesting) (started : Bool) : List Char → Prop
  | [] => True
  | c :: cs =>
    (c = ' ' → (n.isTopLevel ∧ started) ∨ ¬ (indexedWord ++ [' ']) <+: cs) ∧
      Kept (n.next c) (startedAfter n started c) cs

theorem kept_cons (hc : c ≠ ' ') :
    Kept n started (c :: cs) ↔ Kept (n.next c) (startedAfter n started c) cs := by
  rw [Kept]
  exact and_iff_right fun h => absurd h hc

/-- A space at top level. -/
theorem kept_space (hn : n.isTopLevel = true) :
    Kept n started (' ' :: cs) ↔
      (started = false → ¬ (indexedWord ++ [' ']) <+: cs) ∧ Kept n started cs := by
  have hnext : n.next ' ' = n := isTopLevel_next_space n
  have hstarted : startedAfter n started ' ' = started := by simp [startedAfter, hnext, hn]
  rw [Kept, hnext, hstarted, hn]
  cases started <;> simp

/-- Whether a text begins with a word and a space shows before its first space. -/
theorem word_space_append {word : List Char} (hword : ' ' ∉ word) (rest' : List Char)
    (h : word ++ [' '] <+: before ++ ' ' :: rest) : word ++ [' '] <+: before ++ ' ' :: rest' := by
  rcases h with ⟨tail, htail⟩
  rw [List.append_assoc, List.singleton_append] at htail
  rcases append_space_eq_append_space hword htail.symm with ⟨rfl, -⟩ | ⟨before', rfl, -⟩
  · exact ⟨rest', by simp⟩
  · exact ⟨before' ++ ' ' :: rest', by simp⟩

/-! ## One replacement -/

/-- Where the word stands between two spaces, a type has begun at top level. -/
theorem Kept.started_of_indexed (h : Kept n started (' ' :: (indexedWord ++ ' ' :: after))) :
    n.isTopLevel = true ∧ started = true := by
  rcases h.1 rfl with htop | hnot
  · exact htop
  · exact absurd ⟨after, by simp⟩ hnot

/-- A character of a word begins a type or goes on with it. -/
theorem kept_wordChar (hc : isWordChar c = true) :
    Kept n started (c :: cs) ↔ Kept n true cs := by
  have hspace : c ≠ ' ' := by
    rintro rfl
    exact absurd hc (by decide)
  have hnext : n.next c = n :=
    Nesting.next_of_not_isDelimiter (not_isDelimiter_of_isWordChar hc) n
  have hstarted : startedAfter n started c = true := by
    simp [startedAfter, hspace, ne_comma_of_isWordChar hc]
  rw [kept_cons hspace, hnext, hstarted]

theorem kept_word (hcs : ∀ c ∈ cs, isWordChar c = true) :
    Kept n true (cs ++ rest) ↔ Kept n true rest := by
  induction cs with
  | nil => rfl
  | cons c cs ih =>
    rw [List.forall_mem_cons] at hcs
    rw [List.cons_append, kept_wordChar hcs.1, ih hcs.2]

theorem Kept.of_indexed (h : Kept n started (before ++ ' ' :: (indexedWord ++ ' ' :: after))) :
    Kept n started (before ++ ' ' :: after) := by
  induction before generalizing n started with
  | nil =>
    -- the space that is left stands where the word stood
    rcases h.started_of_indexed with ⟨hn, rfl⟩
    rw [List.nil_append, kept_space hn, kept_word (by decide), kept_space hn] at h
    rw [List.nil_append, kept_space hn]
    exact ⟨by simp, h.2.2⟩
  | cons b before ih =>
    -- what an earlier space is followed by ends before the space that is left
    rcases h with ⟨hspace, h⟩
    refine ⟨?_, ih h⟩
    intro hb
    rcases hspace hb with htop | hnot
    · exact Or.inl htop
    · exact Or.inr fun hword => hnot (word_space_append (by decide) _ hword)

/-- Behind a complete type nothing makes a difference up to the next comma. -/
theorem typesFrom_plain (has : ∀ c ∈ as, isDelimiter c = false ∧ c ≠ ',') (cs : List Char) :
    typesFrom n reversed true (as ++ cs) = typesFrom n reversed true cs := by
  rcases exists_pieces_eq_cons n cs with ⟨p, ps, hps⟩
  rw [typesFrom, typesFrom, pieces_append_plain has, hps]
  rfl

theorem typesFrom_indexed (hstart : reversed = [] → n = {} ∧ complete = false)
    (h : Kept n (!reversed.isEmpty) (before ++ ' ' :: (indexedWord ++ ' ' :: after))) :
    typesFrom n reversed complete (before ++ ' ' :: after) =
      typesFrom n reversed complete (before ++ ' ' :: (indexedWord ++ ' ' :: after)) := by
  induction before generalizing n reversed complete with
  | nil =>
    -- the space completes the type, so what follows it does not count
    rcases h.started_of_indexed with ⟨hn, hreversed⟩
    have hnext : n.next ' ' = n := isTopLevel_next_space n
    have hspace : (n.next ' ').isTopLevel ∧ (' ' : Char) = ' ' := ⟨by rw [hnext, hn], rfl⟩
    have hword : typesFrom n reversed true ((indexedWord ++ [' ']) ++ after) =
        typesFrom n reversed true after := typesFrom_plain (by decide) after
    rw [List.nil_append, List.nil_append, typesFrom_space hspace, typesFrom_space hspace, hnext,
      hreversed, Bool.or_true, ← hword, List.append_assoc]
    rfl
  | cons b before ih =>
    have hkept : Kept (n.next b) (startedAfter n (!reversed.isEmpty) b)
        (before ++ ' ' :: (indexedWord ++ ' ' :: after)) := h.2
    rw [List.cons_append, List.cons_append]
    by_cases hcomma : (n.next b).isTopLevel ∧ b = ','
    · -- the next type has not begun
      have hnext : n.next b = {} := Nesting.isTopLevel_iff.1 hcomma.1
      rw [startedAfter, if_pos hcomma] at hkept
      have hrest : typesFrom (n.next b) [] false (before ++ ' ' :: after) =
          typesFrom (n.next b) [] false (before ++ ' ' :: (indexedWord ++ ' ' :: after)) :=
        ih (fun _ => ⟨hnext, rfl⟩) hkept
      rw [typesFrom_comma hcomma, typesFrom_comma hcomma, hrest]
    · rw [startedAfter, if_neg hcomma] at hkept
      by_cases hspace : (n.next b).isTopLevel ∧ b = ' '
      · rw [if_pos hspace] at hkept
        rw [typesFrom_space hspace, typesFrom_space hspace]
        refine ih ?_ hkept
        intro hnil
        exact ⟨Nesting.isTopLevel_iff.1 hspace.1, by simp [hnil, (hstart hnil).2]⟩
      · rw [if_neg hspace] at hkept
        cases complete with
        | true =>
          -- only a type that has begun can be complete
          have hne : reversed ≠ [] := fun hnil => absurd (hstart hnil).2 (by simp)
          have hbegun : (!reversed.isEmpty) = true := by simpa using hne
          rw [typesFrom_complete hcomma, typesFrom_complete hcomma]
          exact ih (fun hnil => absurd hnil hne) (hbegun ▸ hkept)
        | false =>
          rw [typesFrom_cons (fun hnil => (hstart hnil).1) hcomma hspace,
            typesFrom_cons (fun hnil => (hstart hnil).1) hcomma hspace]
          exact ih (fun hnil => absurd hnil (by simp)) hkept

/-- The word `indexed` makes no difference to the types. -/
theorem Kept.map_typeOf_pieces (h : Kept {} false cs) :
    (pieces {} (removeIndexed cs)).map typeOf = (pieces {} cs).map typeOf := by
  have hboth : Kept {} false (removeIndexed cs) ∧
      (pieces {} (removeIndexed cs)).map typeOf = (pieces {} cs).map typeOf := by
    refine removeIndexed_keeps (P := fun text =>
      Kept {} false text ∧ (pieces {} text).map typeOf = (pieces {} cs).map typeOf) ?_ ⟨h, rfl⟩
    rintro before after ⟨hkept, htypes⟩
    refine ⟨hkept.of_indexed, ?_⟩
    rw [← htypes, ← typesFrom_start, ← typesFrom_start]
    exact typesFrom_indexed (fun _ => ⟨rfl, rfl⟩) hkept
  exact hboth.2

/-! ## Written lists -/

/-- The text does not go on with a character of a word. -/
def EndsWord (cs : List Char) : Prop :=
  ∀ c ∈ cs.head?, isWordChar c = false

theorem endsWord_nil : EndsWord [] := by
  simp [EndsWord]

theorem endsWord_cons (hc : isWordChar c = false) (cs : List Char) : EndsWord (c :: cs) := by
  intro d hd
  rw [List.head?_cons, Option.mem_some_iff] at hd
  exact hd ▸ hc

/-- Words that end in the same text where they begin are the same. -/
theorem eq_of_word_append {word : List Char} (hword : ∀ c ∈ word, isWordChar c = true)
    (hcs : ∀ c ∈ cs, isWordChar c = true) (hrest : EndsWord rest)
    (h : word ++ [' '] <+: cs ++ rest) : word = cs := by
  induction word generalizing cs with
  | nil =>
    cases cs with
    | nil => rfl
    | cons c cs =>
      rw [List.nil_append, List.cons_append, List.cons_prefix_cons] at h
      rw [← h.1] at hcs
      exact absurd (hcs ' ' List.mem_cons_self) (by decide)
  | cons w word ih =>
    rw [List.forall_mem_cons] at hword
    cases cs with
    | nil =>
      -- the text behind the empty word would go on with a character of a word
      rcases rest with _ | ⟨r, rest⟩
      · exact absurd h (by simp)
      · rw [List.nil_append, List.cons_append, List.cons_prefix_cons] at h
        have hr : isWordChar r = false := hrest r rfl
        rw [← h.1, hword.1] at hr
        exact absurd hr (by simp)
    | cons c cs =>
      rw [List.forall_mem_cons] at hcs
      rw [List.cons_append, List.cons_append, List.cons_prefix_cons] at h
      rw [h.1, ih hword.2 hcs.2 h.2]

/-- No type is the word `indexed`. -/
theorem Written.not_indexed (h : Written .tidy t text) (hrest : EndsWord rest) :
    ¬ (indexedWord ++ [' ']) <+: text ++ rest := by
  induction h generalizing rest with
  | base w hw =>
    intro hword
    exact hw (eq_of_word_append (by decide) w.plain hrest hword).symm
  | tuple =>
    intro hword
    rw [List.cons_append, indexedWord, List.cons_append, List.cons_prefix_cons] at hword
    exact absurd hword.1 (by decide)
  | @array t text l₁ l₂ digits l₃ ht h₁ h₂ hdigits h₃ ih =>
    rw [show l₁ = [] from h₁, List.nil_append, List.append_assoc, List.cons_append]
    exact ih (endsWord_cons (by decide) _)
  | last ht ih => exact ih hrest
  | @more t ms text l₁ l₂ others ht h₁ h₂ hms ih₁ ih₂ =>
    rw [show l₁ = [] from h₁, List.nil_append, List.append_assoc, List.cons_append]
    exact ih₁ (endsWord_cons (by decide) _)

/-- A delimiter inside a type. -/
theorem kept_delimiter (hc : isDelimiter c = true) :
    Kept n started (c :: cs) ↔ Kept (n.next c) true cs := by
  have hspace : c ≠ ' ' := by
    rintro rfl
    exact absurd hc (by decide)
  have hcomma : c ≠ ',' := by
    rintro rfl
    exact absurd hc (by decide)
  have hstarted : startedAfter n started c = true := by simp [startedAfter, hspace, hcomma]
  rw [kept_cons hspace, hstarted]

/-- Below top level only the lookahead counts. -/
theorem kept_comma_space (hn : n.isTopLevel = false) (b : Bool)
    (hword : ¬ (indexedWord ++ [' ']) <+: cs) (h : Kept n true cs) :
    Kept n started (',' :: (space b ++ cs)) := by
  have hnext {c : Char} (hc : isDelimiter c = false) : n.next c = n :=
    Nesting.next_of_not_isDelimiter hc n
  have hstarted (started : Bool) {c : Char} (hc : isDelimiter c = false) :
      startedAfter n started c = true := by
    simp [startedAfter, hnext hc, hn]
  rw [kept_cons (by decide), hnext (by decide), hstarted started (by decide)]
  cases b with
  | false => exact h
  | true =>
    refine ⟨fun _ => Or.inr hword, ?_⟩
    rw [hnext (by decide), hstarted true (by decide)]
    exact h

theorem Written.kept (h : Written .tidy t text) (hn : part = .members → n.isTopLevel = false)
    (hends : EndsWord rest) (hrest : Kept n true rest) : Kept n started (text ++ rest) := by
  induction h generalizing n started rest with
  | base w =>
    rcases List.exists_cons_of_ne_nil w.ne_nil with ⟨c, cs, hcs⟩
    have hplain := w.plain
    rw [hcs, List.forall_mem_cons] at hplain
    rw [hcs, List.cons_append, kept_wordChar hplain.1, kept_word hplain.2]
    exact hrest
  | @tuple ms l₁ text l₂ h₁ hms h₂ ih =>
    have hclose : Kept { n with parens := n.parens + 1 } true (')' :: rest) :=
      (kept_delimiter rfl).2 hrest
    have hmembers : Kept { n with parens := n.parens + 1 } true (text ++ ')' :: rest) :=
      ih (fun _ => by simp [Nesting.isTopLevel]) (endsWord_cons (by decide) rest) hclose
    have hopen : Kept n started ('(' :: (text ++ ')' :: rest)) := (kept_delimiter rfl).2 hmembers
    rw [show l₁ = [] from h₁, show l₂ = [] from h₂]
    simpa using hopen
  | @array t text l₁ l₂ digits l₃ ht h₁ h₂ hdigits h₃ ih =>
    have hplain : ∀ d ∈ digits, isWordChar d = true :=
      fun d hd => isWordChar_of_isDigit (hdigits d hd)
    have hclose : Kept { n with brackets := n.brackets + 1 } true (']' :: rest) :=
      (kept_delimiter rfl).2 hrest
    have hopen : Kept n true ('[' :: (digits ++ ']' :: rest)) :=
      (kept_delimiter rfl).2 ((kept_word hplain).2 hclose)
    have htext : Kept n started (text ++ '[' :: (digits ++ ']' :: rest)) :=
      ih (by simp) (endsWord_cons (by decide) _) hopen
    rw [show l₁ = [] from h₁, show l₂ = [] from h₂, show l₃ = [] from h₃]
    simpa using htext
  | last ht ih => exact ih (by simp) hends hrest
  | @more t ms text l₁ l₂ others ht h₁ h₂ hms ih₁ ih₂ =>
    rcases h₂ with ⟨b, rfl⟩
    have hothers : Kept n true (others ++ rest) := ih₂ (fun _ => hn rfl) hends hrest
    have hcomma : Kept n true (',' :: (space b ++ (others ++ rest))) :=
      kept_comma_space (hn rfl) b (hms.not_indexed hends) hothers
    have htext : Kept n started (text ++ ',' :: (space b ++ (others ++ rest))) :=
      ih₁ (by simp) (endsWord_cons (by decide) _) hcomma
    rw [show l₁ = [] from h₁]
    simpa using htext

/-- Behind the type of a parameter any words may follow. -/
theorem WrittenWords.kept (h : WrittenWords .tidy ws words) (hrest : Kept {} true rest) :
    Kept {} true (words ++ rest) := by
  induction h with
  | nil => exact hrest
  | @cons w ws l others hl hws ih =>
    rw [show l = [' '] from hl, List.append_assoc, List.append_assoc, List.singleton_append,
      kept_space rfl, kept_word w.plain]
    exact ⟨fun h => absurd h (by simp), ih⟩

theorem WrittenWords.endsWord (h : WrittenWords .tidy ws words) (hrest : EndsWord rest) :
    EndsWord (words ++ rest) := by
  cases h with
  | nil => exact hrest
  | @cons w ws l others hl hws =>
    rw [show l = [' '] from hl]
    exact endsWord_cons (by decide) _

/-- A list of parameters does not begin with the word `indexed`. -/
theorem WrittenParameters.not_indexed (h : WrittenParameters .tidy ps text) :
    ¬ (indexedWord ++ [' ']) <+: text := by
  cases h with
  | @last p text words ht hws =>
    have hends : EndsWord (words ++ []) := hws.endsWord endsWord_nil
    rw [List.append_nil] at hends
    exact ht.not_indexed hends
  | @more p ps text words l₁ l₂ others ht hws h₁ h₂ hps =>
    rw [show l₁ = [] from h₁]
    exact ht.not_indexed (hws.endsWord (endsWord_cons (by decide) _))

/-- In a tidily written list the word `indexed` stands between spaces only behind a type. -/
theorem WrittenParameters.kept (h : WrittenParameters .tidy ps text) : Kept {} false text := by
  induction h with
  | @last p text words ht hws =>
    have hends : EndsWord (words ++ []) := hws.endsWord endsWord_nil
    have hwords : Kept {} true (words ++ []) := hws.kept trivial
    rw [List.append_nil] at hends hwords
    exact ht.kept (by simp) hends hwords
  | @more p ps text words l₁ l₂ others ht hws h₁ h₂ hps ih =>
    rcases h₂ with ⟨b, rfl⟩
    have hothers : Kept {} false (space b ++ others) := by
      cases b with
      | false => exact ih
      | true => exact (kept_space rfl).2 ⟨fun _ => hps.not_indexed, ih⟩
    have hcomma : Kept {} true (',' :: (space b ++ others)) :=
      (kept_cons (by decide)).2 hothers
    rw [show l₁ = [] from h₁, List.nil_append]
    exact ht.kept (by simp) (hws.endsWord (endsWord_cons (by decide) _))
      (hws.kept hcomma)

end AbiSig.Grammar
