import AbiSig.Proofs.Declaration.Spacing
import AbiSig.Proofs.Text.Runs

/-!
# The spacing of a declaration by its runs

`collapse` and `tighten` are loops over whole texts. What they come to is said of the runs of a text.

1. **Collapsing**: every run of layout becomes one space (`collapse_eq_mapRuns`).
2. **Tightening**: a run of spaces goes as a whole if the character in front of it or the one behind it
   drops spaces on this side, and stays as a whole if neither does (`tighten_eq_mapRuns`).
3. **The rules of tightening**: in whatever order the rules are applied, and with or without the two
   for a space behind a closing parenthesis, the result is the same
   (`normalForm_eq_tightenPass`).

Both loops are brought into one pass from left to right first. The rules do not change what the pass
writes, and the pass leaves a text alone in which no rule matches.
-/

namespace AbiSig.Declaration

open Text

variable {p : Char → Bool} {opened : Bool} {c : Char} {as bs cs run rest : List Char}
  {rules : List Rule}

/-! ## Collapsing -/

/-- The text with one space for every run of the class `p`, which is written at its end. -/
def collapsePass (p : Char → Bool) : List Char → List Char
  | [] => []
  | c :: cs =>
    if p c then
      if cs.head?.any p then collapsePass p cs else ' ' :: collapsePass p cs
    else c :: collapsePass p cs

theorem collapsePass_other (hc : p c = false) : collapsePass p (c :: cs) = c :: collapsePass p cs := by
  simp [collapsePass, hc]

theorem collapsePass_run (hne : run ≠ []) (hrun : ∀ c ∈ run, p c = true)
    (hrest : ∀ c ∈ rest.head?, p c = false) :
    collapsePass p (run ++ rest) = ' ' :: collapsePass p rest := by
  induction run with
  | nil => exact absurd rfl hne
  | cons c run ih =>
    rw [List.forall_mem_cons] at hrun
    rw [List.cons_append, collapsePass, if_pos hrun.1]
    cases run with
    | nil =>
      -- the run ends here
      have hends : rest.head?.any p = false := (Option.any_eq_false p _).2 hrest
      rw [List.nil_append, hends]
      rfl
    | cons d run =>
      have hgoes : ((d :: run) ++ rest).head?.any p = true := hrun.2 d List.mem_cons_self
      rw [hgoes, if_pos rfl]
      exact ih (List.cons_ne_nil d run) hrun.2

theorem collapsePass_eq_mapRuns (before : Option Char) (cs : List Char) :
    collapsePass p cs = mapRuns p (fun _ _ _ => [' ']) before cs :=
  eq_mapRuns (F := fun _ => collapsePass p) (fun _ => rfl) (fun _ _ _ => collapsePass_other)
    (fun _ _ _ => collapsePass_run) before cs

theorem collapsePass_spaceLayout (cs : List Char) :
    collapsePass (· == ' ') (spaceLayout cs) = collapsePass isLayout cs := by
  have hclass (c : Char) : ((if isLayout c then ' ' else c) == ' ') = isLayout c := by
    by_cases hc : isLayout c = true
    · simp [hc]
    · have hspace : c ≠ ' ' := by
        rintro rfl
        exact hc rfl
      simp [hc, hspace]
  induction cs with
  | nil => rfl
  | cons c cs ih =>
    have hhead : (spaceLayout cs).head?.any (· == ' ') = cs.head?.any isLayout := by
      cases cs with
      | nil => rfl
      | cons d cs => exact hclass d
    have hcons : spaceLayout (c :: cs) = (if isLayout c then ' ' else c) :: spaceLayout cs := rfl
    rw [hcons, collapsePass, collapsePass, hclass, hhead, ih]
    by_cases hc : isLayout c = true
    · rw [if_pos hc, if_pos hc]
    · rw [if_neg hc, if_neg hc, if_neg hc]

theorem collapsePass_append_congr (hpass : collapsePass p as = collapsePass p bs)
    (hhead : as.head?.any p = bs.head?.any p) (cs : List Char) :
    collapsePass p (cs ++ as) = collapsePass p (cs ++ bs) := by
  induction cs with
  | nil => exact hpass
  | cons c cs ih =>
    have hnext : (cs ++ as).head?.any p = (cs ++ bs).head?.any p := by
      cases cs with
      | nil => exact hhead
      | cons d cs => rfl
    rw [List.cons_append, List.cons_append, collapsePass, collapsePass, hnext, ih]

/-- Two spaces are collapsed like one. -/
theorem collapsePass_of_step (h : Step [doubleSpace] as bs) :
    collapsePass (· == ' ') bs = collapsePass (· == ' ') as := by
  obtain ⟨before, after, rfl, rfl⟩ := step_singleton_inv h
  have hpass : collapsePass (· == ' ') (' ' :: after) = collapsePass (· == ' ') (' ' :: ' ' :: after) :=
    rfl
  exact collapsePass_append_congr hpass rfl before

theorem collapsePass_eq_self (h : ¬ [' ', ' '] <:+: cs) : collapsePass (· == ' ') cs = cs := by
  induction cs with
  | nil => rfl
  | cons c cs ih =>
    have htail := ih fun hcs => h (List.infix_cons hcs)
    rw [collapsePass, htail]
    split
    · next hc =>
      rw [beq_iff_eq] at hc
      subst hc
      -- a second space is not there
      have hnext : cs.head?.any (· == ' ') = false := by
        rw [Option.any_eq_false]
        intro d hd
        obtain ⟨ds, rfl⟩ := List.head?_eq_some_iff.1 hd
        rw [beq_eq_false_iff_ne]
        rintro rfl
        exact h (List.prefix_append [' ', ' '] ds).isInfix
      rw [hnext]
      rfl
    · rfl

/-- Every run of layout becomes one space. -/
theorem collapse_eq_mapRuns (cs : List Char) :
    collapse cs = mapRuns isLayout (fun _ _ _ => [' ']) none cs :=
  calc collapse cs
      = collapsePass (· == ' ') (spaceLayout cs) :=
        normalForm_eq_of_steps (fun _ _ => collapsePass_of_step)
          (fun _ hnone => collapsePass_eq_self (hnone doubleSpace List.mem_cons_self)) _
    _ = collapsePass isLayout cs := collapsePass_spaceLayout cs
    _ = mapRuns isLayout (fun _ _ _ => [' ']) none cs := collapsePass_eq_mapRuns none cs

/-! ## Tightening -/

/-- Whether the first character that is no space drops the spaces in front of it. -/
def snugAhead (cs : List Char) : Bool :=
  (cs.dropWhile (· == ' ')).head?.any snugBefore

/-- The text without the spaces that the characters next to their runs drop. `opened` says that the
run at the beginning of the text is dropped for what stands in front of it. -/
def tightenPass (opened : Bool) : List Char → List Char
  | [] => []
  | c :: cs =>
    if c == ' ' then
      if opened || snugAhead cs then tightenPass opened cs else ' ' :: tightenPass opened cs
    else c :: tightenPass (snugBehind c) cs

/-- What becomes of a run of spaces between two characters. -/
def tightenRun (before : Option Char) (run : List Char) (behind : Option Char) : List Char :=
  if before.any snugBehind || behind.any snugBefore then [] else run

theorem snugAhead_other (hc : c ≠ ' ') : snugAhead (c :: cs) = snugBefore c := by
  rw [snugAhead, List.dropWhile_cons_of_neg (by simpa using hc)]
  rfl

theorem snugAhead_run (hrun : ∀ c ∈ run, c = ' ') (hrest : rest.head? ≠ some ' ') :
    snugAhead (run ++ rest) = rest.head?.any snugBefore := by
  rw [snugAhead, List.dropWhile_append_of_pos (by simpa using hrun)]
  cases rest with
  | nil => rfl
  | cons d rest =>
    have hd : d ≠ ' ' := by simpa using hrest
    exact snugAhead_other hd

theorem tightenPass_other (hc : c ≠ ' ') :
    tightenPass opened (c :: cs) = c :: tightenPass (snugBehind c) cs := by
  simp [tightenPass, hc]

theorem tightenPass_space :
    tightenPass opened (' ' :: cs) =
      if opened || snugAhead cs then tightenPass opened cs else ' ' :: tightenPass opened cs := by
  simp [tightenPass]

/-- What stands in front of a text does not matter where it begins with no space. -/
theorem tightenPass_of_head (hcs : cs.head? ≠ some ' ') (opened opened' : Bool) :
    tightenPass opened cs = tightenPass opened' cs := by
  cases cs with
  | nil => rfl
  | cons c cs =>
    have hc : c ≠ ' ' := by simpa using hcs
    rw [tightenPass_other hc, tightenPass_other hc]

/-- A run goes as a whole or stays as a whole. -/
theorem tightenPass_run (hrun : ∀ c ∈ run, c = ' ') (hrest : rest.head? ≠ some ' ') :
    tightenPass opened (run ++ rest) =
      (if opened || rest.head?.any snugBefore then [] else run) ++ tightenPass opened rest := by
  induction run with
  | nil => simp
  | cons c run ih =>
    rw [List.forall_mem_cons] at hrun
    obtain ⟨rfl, hrun⟩ := hrun
    rw [List.cons_append, tightenPass_space, snugAhead_run hrun hrest, ih hrun]
    split
    · rfl
    · rw [List.cons_append]

theorem tightenPass_eq_mapRuns (before : Option Char) (cs : List Char) :
    tightenPass (before.any snugBehind) cs = mapRuns (· == ' ') tightenRun before cs := by
  refine eq_mapRuns (F := fun before => tightenPass (before.any snugBehind)) ?_ ?_ ?_ before cs
  · intro before
    rfl
  · intro before c cs hc
    exact tightenPass_other (by simpa using hc)
  · intro before run rest hne hrun hrest
    have hspaces : ∀ c ∈ run, c = ' ' := fun c hc => by simpa using hrun c hc
    have hhead : rest.head? ≠ some ' ' := fun hspace => absurd (hrest ' ' hspace) (by simp)
    rw [tightenPass_run hspaces hhead]
    exact congrArg (_ ++ ·) (tightenPass_of_head hhead _ _)

/-! ## The rules of tightening -/

theorem snugAhead_append_congr (hahead : snugAhead as = snugAhead bs) (cs : List Char) :
    snugAhead (cs ++ as) = snugAhead (cs ++ bs) := by
  induction cs with
  | nil => exact hahead
  | cons c cs ih =>
    by_cases hc : c = ' '
    · subst hc
      exact ih
    · rw [List.cons_append, List.cons_append, snugAhead_other hc, snugAhead_other hc]

theorem tightenPass_append_congr (hpass : ∀ opened, tightenPass opened as = tightenPass opened bs)
    (hahead : snugAhead as = snugAhead bs) (cs : List Char) :
    tightenPass opened (cs ++ as) = tightenPass opened (cs ++ bs) := by
  induction cs generalizing opened with
  | nil => exact hpass opened
  | cons c cs ih =>
    rw [List.cons_append, List.cons_append, tightenPass, tightenPass,
      snugAhead_append_congr hahead cs]
    simp only [ih]

/-- A space that a rule drops is dropped in the pass. -/
theorem tightenPass_of_step (h : Step tightenRules as bs) :
    tightenPass opened bs = tightenPass opened as := by
  obtain ⟨before, c, after, hc, rfl, rfl⟩ | ⟨before, c, after, hc, rfl, rfl⟩ := step_tighten_inv h
  · have hne : c ≠ ' ' := by
      rintro rfl
      exact absurd hc (by decide)
    refine tightenPass_append_congr ?_ ?_ before
    · intro opened
      rw [tightenPass_other hne, tightenPass_other hne, hc, tightenPass_space, Bool.true_or, if_pos rfl]
    · rw [snugAhead_other hne, snugAhead_other hne]
  · have hne : c ≠ ' ' := by
      rintro rfl
      exact absurd hc (by decide)
    refine tightenPass_append_congr ?_ ?_ before
    · intro opened
      rw [tightenPass_space, snugAhead_other hne, hc, Bool.or_true, if_pos rfl]
    · rfl

/-- If a character drops the spaces in front of it, the last of them stands right before it. -/
theorem exists_infix_of_snugAhead (h : snugAhead cs = true) :
    ∃ d, snugBefore d = true ∧ [' ', d] <:+: ' ' :: cs := by
  induction cs with
  | nil => exact absurd h (by decide)
  | cons c cs ih =>
    by_cases hc : c = ' '
    · subst hc
      obtain ⟨d, hd, hinfix⟩ := ih h
      exact ⟨d, hd, List.infix_cons hinfix⟩
    · rw [snugAhead_other hc] at h
      exact ⟨c, h, (List.prefix_append [' ', c] cs).isInfix⟩

/-- A text in which no space stands next to a character that drops it is left alone. -/
theorem tightenPass_eq_self (hbefore : ∀ d, snugBefore d = true → ¬ [' ', d] <:+: cs)
    (hbehind : ∀ d, snugBehind d = true → ¬ [d, ' '] <:+: cs)
    (hopened : opened = true → cs.head? ≠ some ' ') : tightenPass opened cs = cs := by
  induction cs generalizing opened with
  | nil => rfl
  | cons c cs ih =>
    have htail_before : ∀ d, snugBefore d = true → ¬ [' ', d] <:+: cs :=
      fun d hd hinfix => hbefore d hd (List.infix_cons hinfix)
    have htail_behind : ∀ d, snugBehind d = true → ¬ [d, ' '] <:+: cs :=
      fun d hd hinfix => hbehind d hd (List.infix_cons hinfix)
    by_cases hc : c = ' '
    · subst hc
      have hclosed : opened = false := by
        rw [← Bool.not_eq_true]
        exact fun htrue => hopened htrue rfl
      have hahead : snugAhead cs = false := by
        rw [← Bool.not_eq_true]
        intro htrue
        obtain ⟨d, hd, hinfix⟩ := exists_infix_of_snugAhead htrue
        exact hbefore d hd hinfix
      rw [tightenPass_space, hclosed, hahead, ih htail_before htail_behind (by simp)]
      rfl
    · have hnext : snugBehind c = true → cs.head? ≠ some ' ' := by
        intro hc hspace
        obtain ⟨ds, rfl⟩ := List.head?_eq_some_iff.1 hspace
        exact hbehind c hc (List.prefix_append [c, ' '] ds).isInfix
      rw [tightenPass_other hc, ih htail_before htail_behind hnext]

/-- The rules in any order. The two for a space behind a closing parenthesis may be left out, for where
they match, the one for a space before a comma or before a closing parenthesis does. -/
theorem normalForm_eq_tightenPass (hsub : ∀ r ∈ rules, r ∈ tightenRules)
    (hall : ∀ r ∈ tightenRules, r.pattern ≠ [')', ' ', ','] → r.pattern ≠ [')', ' ', ')'] → r ∈ rules)
    (cs : List Char) : normalForm rules cs = tightenPass false cs := by
  apply normalForm_eq_of_steps
  · intro as bs h
    cases h with
    | replace hr before after => exact tightenPass_of_step (Step.replace (hsub _ hr) before after)
  · intro cs hnone
    have hpair {a b : Char} (hrule : ∃ r ∈ tightenRules, r.pattern = [a, b]) : ¬ [a, b] <:+: cs := by
      obtain ⟨r, hr, hpattern⟩ := hrule
      exact hpattern ▸ hnone r (hall r hr (by simp [hpattern]) (by simp [hpattern]))
    exact tightenPass_eq_self (fun d hd => hpair (exists_rule_before hd))
      (fun d hd => hpair (exists_rule_behind hd)) (by simp)

/-- A run of spaces goes as a whole if a character next to it drops it, and stays otherwise. -/
theorem tighten_eq_mapRuns (cs : List Char) :
    tighten cs = mapRuns (· == ' ') tightenRun none cs :=
  calc tighten cs
      = tightenPass false cs := normalForm_eq_tightenPass (fun _ hr => hr) (fun _ hr _ _ => hr) cs
    _ = mapRuns (· == ' ') tightenRun none cs := tightenPass_eq_mapRuns none cs

/-! ## Both loops -/

/-- What the two loops come to, and that they come to an end. The order of the rules of tightening makes
no difference, nor do the two for a space behind a closing parenthesis, and no two spaces are brought
together. -/
theorem spacing_by_runs (cs : List Char) :
    collapse cs = mapRuns isLayout (fun _ _ _ => [' ']) none cs ∧
      tighten cs = mapRuns (· == ' ') tightenRun none cs ∧
      (∃ n, n ≤ cs.length ∧ StopsAfter [doubleSpace] n (spaceLayout cs) (collapse cs)) ∧
      (∃ n, n ≤ cs.length ∧ StopsAfter tightenRules n cs (tighten cs)) ∧
      (∀ rules : List Rule, (∀ r ∈ rules, r ∈ tightenRules) →
        (∀ r ∈ tightenRules, r.pattern ≠ [')', ' ', ','] → r.pattern ≠ [')', ' ', ')'] → r ∈ rules) →
        normalForm rules cs = tighten cs) ∧
      (¬ [' ', ' '] <:+: cs → ¬ [' ', ' '] <:+: tighten cs) := by
  refine ⟨collapse_eq_mapRuns cs, tighten_eq_mapRuns cs, ?_, ?_, ?_, ?_⟩
  · have hlength : (spaceLayout cs).length = cs.length := List.length_map _
    rw [← hlength]
    exact exists_stopsAfter [doubleSpace] (spaceLayout cs)
  · exact exists_stopsAfter tightenRules cs
  · intro rules hsub hall
    rw [normalForm_eq_tightenPass hsub hall, tighten_eq_mapRuns]
    exact tightenPass_eq_mapRuns none cs
  · exact single_tighten

/-- Six of the rules, last to first, at a text in which all eight match. -/
theorem spacing_by_runs_reversed :
    normalForm (tightenRules.filter (·.pattern.length == 2)).reverse "f( (a ) ,b [ ] , (c ) )".toList =
        tighten "f( (a ) ,b [ ] , (c ) )".toList ∧
      ¬ [' ', ' '] <:+: tighten "f( (a ) ,b [ ] , (c ) )".toList := by
  obtain ⟨-, -, -, -, hrules, hsingle⟩ := spacing_by_runs "f( (a ) ,b [ ] , (c ) )".toList
  constructor
  · apply hrules
    · intro r hr
      exact (List.mem_filter.1 (List.mem_reverse.1 hr)).1
    · intro r hr hcomma hclose
      rw [List.mem_reverse, List.mem_filter]
      refine ⟨hr, ?_⟩
      simp only [tightenRules, List.mem_cons, List.not_mem_nil, or_false] at hr
      rcases hr with rfl | rfl | rfl | rfl | rfl | rfl | rfl | rfl
      case inr.inr.inr.inl => exact absurd rfl hcomma
      case inr.inr.inr.inr.inl => exact absurd rfl hclose
      all_goals rfl
  · exact hsingle (by decide)

end AbiSig.Declaration
