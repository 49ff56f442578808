import AbiSig.Proofs.Interface.Language

/-!
# What a normal form is like

The stages of `normalize` come one after the other: the cut, the spacing, the keywords in front, the
ends of the name. Each of them could bring back what an earlier one took away, and none does.

1. **The cut**: `Cut` says where the argument list of a declaration ends, by the numbers of its
   parentheses (`cut_of_throughArguments`).
2. **The spacing**: a normal form that is written out is the tidy form of its name and of the argument
   list as it was declared (`tidy_of_name`). So what holds of tidy texts holds of it.
3. **The contents**: from the first parenthesis on, nothing but layout is added, lost or moved.

`normalForm_of_normalize` puts these together.
-/

namespace AbiSig

open Text Declaration

variable {raw : String} {n : Normalized} {name before inside rest : List Char}

/-! ## The cut -/

/-- Where the argument list of a text ends: at the `)` that closes its first `(`, or, if that is
never closed, at the last `)` of the text. -/
inductive Cut (raw : String) (before inside rest : List Char) : Prop where
  | closed (h : Parts raw before inside rest)
  | unclosed (text : raw.toList = before ++ '(' :: (inside ++ ')' :: rest)) (first : '(' ∉ before)
      (never : ∀ p, p <+: inside ++ ')' :: rest → p.count ')' ≤ p.count '(') (last : ')' ∉ rest)

theorem cut_of_throughArguments (hbefore : '(' ∉ before)
    (hcut : throughArguments raw = .ok (before ++ '(' :: (inside ++ [')']))) :
    ∃ rest, Cut raw before inside rest := by
  obtain ⟨rest, hraw, ⟨hsplit, -⟩ | ⟨hnone, hlast⟩⟩ := throughArguments_open_inv hcut
  · -- the first `(` has its `)`
    obtain ⟨before', inside', hbefore', hkept, -, hdepth⟩ := splitArguments_eq_some_iff.1 hsplit
    obtain ⟨-, hinside⟩ := append_cons_inj hbefore hbefore' hkept
    rw [← List.append_cancel_right hinside] at hdepth
    exact ⟨rest, .closed (parts_iff.2 ⟨hraw, hbefore, hdepth⟩)⟩
  · -- it has none, so the counter never goes below zero
    rw [hraw, splitArguments_eq_none_iff hbefore] at hnone
    obtain ⟨d, hd⟩ := hnone
    obtain ⟨hnever, -⟩ := (depthAfter_eq_some_iff (by decide)).1 hd
    simp only [Nat.zero_add] at hnever
    exact ⟨rest, .unclosed hraw hbefore hnever hlast⟩

/-! ## The spacing -/

/-- A name is tidy, and the argument list behind it is respaced apart. -/
theorem tidy_of_name (hname : isIdentifier name = true) (inside : List Char) :
    tidy (name ++ '(' :: (inside ++ [')'])) = name ++ '(' :: (argumentText inside ++ [')']) := by
  rw [tidy_append_open, tidy_of_isIdentifier hname]

/-! ## The whole -/

/-- What the normal form of a declaration is like when it is written out. -/
structure NormalForm (raw : String) (n : Normalized) : Prop where
  /-- An identifier stands in front of the first parenthesis, and it is the name. -/
  name : n.text.toList.takeWhile (· != '(') = n.name.toList ∧ isIdentifier n.name.toList = true
  /-- Right behind the name the argument list opens, and nothing follows where it closes. -/
  list : n.text.toList = n.name.toList ++ '(' :: (n.params.toList ++ [')'])
  one_line : '\t' ∉ n.text.toList ∧ '\r' ∉ n.text.toList ∧ '\n' ∉ n.text.toList
  single_spaces : ¬ [' ', ' '] <:+: n.text.toList
  not_space_behind : ∀ d ∈ ['(', '['], ¬ [d, ' '] <:+: n.text.toList
  not_space_before : ∀ d ∈ [')', ',', ']', '['], ¬ [' ', d] <:+: n.text.toList
  no_keyword : ¬ "function ".toList <+: n.text.toList ∧ ¬ "event ".toList <+: n.text.toList
  /-- From the first parenthesis on stands what the declaration has up to its cut. Blanks are all that
  was added, lost or moved, and of these only layout. -/
  contents : ∃ before inside rest, Cut raw before inside rest ∧
    removeBlanks (n.text.toList.dropWhile (· != '(')) = removeBlanks ('(' :: (inside ++ [')'])) ∧
    (n.text.toList.dropWhile (· != '(')).filter (!isLayout ·) =
      ('(' :: (inside ++ [')'])).filter (!isLayout ·)

/-- Every normal form is like this: no stage brings back what an earlier one took away. -/
theorem normalForm_of_normalize (h : normalize raw = .ok n) : NormalForm raw n := by
  obtain ⟨before, inside, hbefore, hcut, hident, rfl⟩ := normalize_eq_ok_iff.1 h
  obtain ⟨rest, hends⟩ := cut_of_throughArguments hbefore hcut
  generalize nameBefore before = name at hident ⊢
  have hopen : '(' ∉ name := not_mem_identifier hident (by decide)
  have htext : (Normalized.text ⟨String.ofList name, String.ofList (argumentText inside)⟩).toList =
      name ++ '(' :: (argumentText inside ++ [')']) := by
    simp [Normalized.toList_text]
  have htidy : Tidy (name ++ '(' :: (argumentText inside ++ [')'])) := by
    rw [← tidy_of_name hident]
    exact tidy_tidy _
  have hlayout (c : Char) (hc : isLayout c = true) (hspace : c ≠ ' ') :
      c ∉ name ++ '(' :: (argumentText inside ++ [')']) :=
    fun hmem => hspace (htidy.spaces c hmem hc)
  have hkeyword (word : List Char) (hword : ' ' ∈ word) (hparen : '(' ∉ word) :
      ¬ word <+: name ++ '(' :: (argumentText inside ++ [')']) := by
    -- a keyword without the parenthesis would stand in the name, which has no space
    rintro ⟨behind, heq⟩
    have hfound := after?_eq_some_iff.2 heq.symm
    rw [after?_append_cons hparen, Option.map_eq_some_iff] at hfound
    obtain ⟨behind', hlead, -⟩ := hfound
    rw [after?_eq_some_iff.1 hlead] at hident
    exact not_mem_identifier hident (by decide) (List.mem_append_left behind' hword)
  have hfilter {p : Char → Bool} (hp : ∀ c, isLayout c = true → p c = false) :
      ('(' :: (argumentText inside ++ [')'])).filter p = ('(' :: (inside ++ [')'])).filter p := by
    rw [List.filter_cons, List.filter_cons, List.filter_append, List.filter_append,
      filter_argumentText hp]
  constructor
  case name =>
    rw [htext, takeWhile_before hopen, String.toList_ofList]
    exact ⟨rfl, hident⟩
  case list => exact Normalized.toList_text _
  case one_line =>
    rw [htext]
    exact ⟨hlayout '\t' rfl (by decide), hlayout '\r' rfl (by decide), hlayout '\n' rfl (by decide)⟩
  case single_spaces =>
    rw [htext]
    exact htidy.single
  case not_space_behind =>
    have hsnug : ∀ d ∈ ['(', '['], snugBehind d = true := by decide
    intro d hd
    rw [htext]
    exact htidy.not_infix_behind (hsnug d hd)
  case not_space_before =>
    have hsnug : ∀ d ∈ [')', ',', ']', '['], snugBefore d = true := by decide
    intro d hd
    rw [htext]
    exact htidy.not_infix_before (hsnug d hd)
  case no_keyword =>
    rw [htext]
    exact ⟨hkeyword _ (by decide) (by decide), hkeyword _ (by decide) (by decide)⟩
  case contents =>
    refine ⟨before, inside, rest, hends, ?_⟩
    rw [htext, dropWhile_before hopen]
    refine ⟨hfilter ?_, hfilter ?_⟩
    · intro c hc
      simp [isBlank_of_isLayout hc]
    · intro c hc
      simp [hc]

/-- A declaration with layout in all places, and one whose first parenthesis is never closed, so that
it is cut at its last `)`. -/
theorem normalForm_of_swap_and_unclosed :
    (∃ n, normalize "event\tSwap ( address\n indexed sender ,\r\n uint256 [ ] amounts ) ;" = .ok n ∧
      NormalForm "event\tSwap ( address\n indexed sender ,\r\n uint256 [ ] amounts ) ;" n) ∧
    ∃ n, normalize "f( (a ) b" = .ok n ∧ NormalForm "f( (a ) b" n := by
  have hswap : normalize "event\tSwap ( address\n indexed sender ,\r\n uint256 [ ] amounts ) ;" =
      .ok ⟨"Swap", "address indexed sender, uint256[] amounts"⟩ := by decide +kernel
  have hunclosed : normalize "f( (a ) b" = .ok ⟨"f", "(a"⟩ := by decide +kernel
  exact ⟨⟨_, hswap, normalForm_of_normalize hswap⟩, ⟨_, hunclosed, normalForm_of_normalize hunclosed⟩⟩

end AbiSig
