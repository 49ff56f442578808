import AbiSig.Text.Replacement
import Mathlib.Data.List.Infix
import Mathlib.Logic.Function.Iterate
import Mathlib.Logic.Relation

/-!
# Replacement as rewriting

`Rule.replaceAll`, `pass` and `normalForm` are whole-text operations. Here they are cut into single
steps, each of which replaces one occurrence of one pattern:

* `rewrites_normalForm`: the normal form is reached by steps, so what every step keeps, the normal
  form keeps (`Rewrites.keeps`);
* `not_infix_normalForm`: no pattern occurs in the normal form;
* `normalForm_eq_self`: a text in which no pattern occurs is its own normal form;
* `normalForm_eq_of_steps`: a function that no step changes and that leaves texts without a pattern
  alone writes the normal form;
* `exists_stopsAfter`: the passes come to an end, after at most as many passes as the text has
  characters.
-/

namespace AbiSig.Text

/-! ## Steps -/

/-- One occurrence of the pattern of one of the rules is replaced. -/
inductive Step (rules : List Rule) : List Char → List Char → Prop where
  | replace {r : Rule} (hr : r ∈ rules) (before after : List Char) :
      Step rules (before ++ (r.pattern ++ after)) (before ++ (r.replacement ++ after))

/-- Any number of steps. -/
abbrev Rewrites (rules : List Rule) : List Char → List Char → Prop :=
  Relation.ReflTransGen (Step rules)

variable {rules : List Rule} {r : Rule} {cs ds : List Char}

/-- A step of one rule replaces its pattern. -/
theorem step_singleton_inv (h : Step [r] cs ds) :
    ∃ before after, cs = before ++ (r.pattern ++ after) ∧ ds = before ++ (r.replacement ++ after) := by
  cases h with
  | replace hr before after =>
    rw [List.mem_singleton] at hr
    subst hr
    exact ⟨before, after, rfl, rfl⟩

theorem Step.cons (c : Char) (h : Step rules cs ds) : Step rules (c :: cs) (c :: ds) := by
  cases h with
  | replace hr before after => exact Step.replace hr (c :: before) after

theorem Rewrites.cons (c : Char) (h : Rewrites rules cs ds) :
    Rewrites rules (c :: cs) (c :: ds) :=
  h.lift (c :: ·) fun _ _ => Step.cons c

theorem Rewrites.append_left (before : List Char) (h : Rewrites rules cs ds) :
    Rewrites rules (before ++ cs) (before ++ ds) := by
  induction before with
  | nil => exact h
  | cons c before ih => exact Rewrites.cons c ih

/-- What every step keeps, any number of steps keeps. -/
theorem Rewrites.keeps {P : List Char → Prop} (hstep : ∀ cs ds, Step rules cs ds → P cs → P ds)
    (h : Rewrites rules cs ds) (hcs : P cs) : P ds := by
  induction h with
  | refl => exact hcs
  | tail _ hlast ih => exact hstep _ _ hlast ih

/-- What no step changes, any number of steps leaves as it is. -/
theorem Rewrites.map_eq {α : Type} {F : List Char → α}
    (hstep : ∀ cs ds, Step rules cs ds → F ds = F cs) (h : Rewrites rules cs ds) : F ds = F cs :=
  h.keeps (P := fun text => F text = F cs) (fun _ _ h ih => (hstep _ _ h).trans ih) rfl

/-! ## The operations make steps -/

theorem rewrites_replaceAll (hr : r ∈ rules) (cs : List Char) :
    Rewrites rules cs (r.replaceAll cs) := by
  fun_induction Rule.replaceAll r cs with
  | case1 => exact .refl
  | case2 c cs rest h ih =>
    -- an occurrence in front is replaced first, then those behind it
    rw [after?_eq_some_iff.1 h]
    exact .head (Step.replace hr [] rest) (ih.append_left r.replacement)
  | case3 c cs h ih => exact ih.cons c

theorem rewrites_pass {some : List Rule} (hsome : ∀ r ∈ some, r ∈ rules) (cs : List Char) :
    Rewrites rules cs (pass some cs) := by
  induction some generalizing cs with
  | nil => exact .refl
  | cons r some ih =>
    have hfirst : Rewrites rules cs (r.replaceAll cs) :=
      rewrites_replaceAll (hsome r List.mem_cons_self) cs
    have hothers := ih (fun r' hr' => hsome r' (List.mem_cons_of_mem r hr')) (r.replaceAll cs)
    rw [pass_cons]
    exact hfirst.trans hothers

/-- The normal form is reached by steps. -/
theorem rewrites_normalForm (rules : List Rule) (cs : List Char) :
    Rewrites rules cs (normalForm rules cs) := by
  fun_induction normalForm rules cs with
  | case1 => exact .refl
  | case2 cs h ih => exact (rewrites_pass (fun _ hr => hr) cs).trans ih

/-- Rules that bring in no new characters leave none in the normal form. -/
theorem mem_of_mem_normalForm {c : Char}
    (hrules : ∀ r ∈ rules, ∀ c ∈ r.replacement, c ∈ r.pattern) (h : c ∈ normalForm rules cs) :
    c ∈ cs := by
  have hstep : ∀ as bs, Step rules as bs → (c ∈ as → c ∈ cs) → c ∈ bs → c ∈ cs := by
    rintro _ _ ⟨hr, before, after⟩ has hbs
    apply has
    simp only [List.mem_append] at hbs ⊢
    rcases hbs with hbs | hbs | hbs
    · exact Or.inl hbs
    · exact Or.inr (Or.inl (hrules _ hr c hbs))
    · exact Or.inr (Or.inr hbs)
  exact (rewrites_normalForm rules cs).keeps (P := fun text => c ∈ text → c ∈ cs) hstep id h

/-! ## Texts without a pattern -/

theorem Rule.replaceAll_eq_self (h : ¬ r.pattern <:+: cs) : r.replaceAll cs = cs := by
  fun_induction Rule.replaceAll r cs with
  | case1 => rfl
  | case2 c cs rest hrest ih =>
    -- an occurrence in front contradicts the hypothesis
    rw [after?_eq_some_iff.1 hrest] at h
    exact absurd (List.prefix_append r.pattern rest).isInfix h
  | case3 c cs hrest ih =>
    have htail : ¬ r.pattern <:+: cs := fun hcs => h (List.infix_cons hcs)
    rw [ih htail]

theorem Rule.length_replaceAll_lt (h : r.pattern <:+: cs) :
    (r.replaceAll cs).length < cs.length := by
  fun_induction Rule.replaceAll r cs with
  | case1 =>
    have hpos := r.shorter
    rw [List.infix_nil.1 h] at hpos
    exact absurd hpos (Nat.not_lt_zero _)
  | case2 c cs rest hrest ih =>
    have hlen := congrArg List.length (after?_eq_some_iff.1 hrest)
    have hpos := r.shorter
    have htail : (r.replaceAll rest).length ≤ rest.length := by
      rcases r.replaceAll_eq_or_length_lt rest with heq | hlt
      · rw [heq]
      · exact hlt.le
    rw [List.length_append] at hlen ⊢
    omega
  | case3 c cs hrest ih =>
    -- the occurrence is not in front, so it lies in the tail
    rcases List.infix_cons_iff.1 h with hfront | htail
    · rcases hfront with ⟨rest, heq⟩
      rw [after?_eq_some_iff.2 heq.symm] at hrest
      exact absurd hrest (by simp)
    · simpa using ih htail

/-- A pass over a text in which no pattern occurs changes nothing. -/
theorem pass_eq_self (h : ∀ r ∈ rules, ¬ r.pattern <:+: cs) : pass rules cs = cs := by
  induction rules with
  | nil => rfl
  | cons r rules ih =>
    rw [pass_cons, r.replaceAll_eq_self (h r List.mem_cons_self)]
    exact ih fun r' hr' => h r' (List.mem_cons_of_mem r hr')

/-- A pass over a text in which a pattern occurs shortens it. -/
theorem length_pass_lt_of_infix (hr : r ∈ rules) (h : r.pattern <:+: cs) :
    (pass rules cs).length < cs.length := by
  induction rules generalizing cs with
  | nil => exact absurd hr List.not_mem_nil
  | cons r' rules ih =>
    rw [pass_cons]
    have hle : (pass rules (r'.replaceAll cs)).length ≤ (r'.replaceAll cs).length := by
      rcases pass_eq_or_length_lt rules (r'.replaceAll cs) with heq | hlt
      · rw [heq]
      · exact hlt.le
    rcases r'.replaceAll_eq_or_length_lt cs with heq | hlt
    · -- the first rule does nothing, so its pattern is not the one that occurs
      rw [heq]
      rcases List.mem_cons.1 hr with rfl | hr
      · have hshort := Rule.length_replaceAll_lt h
        rw [heq] at hshort
        exact absurd hshort (lt_irrefl _)
      · exact ih hr h
    · exact lt_of_le_of_lt hle hlt

/-- No pattern occurs in the normal form. -/
theorem not_infix_normalForm (hr : r ∈ rules) (cs : List Char) :
    ¬ r.pattern <:+: normalForm rules cs := by
  intro h
  have hlt := length_pass_lt_of_infix hr h
  rw [pass_normalForm] at hlt
  exact absurd hlt (lt_irrefl _)

/-- A text in which no pattern occurs is its own normal form. -/
theorem normalForm_eq_self (h : ∀ r ∈ rules, ¬ r.pattern <:+: cs) : normalForm rules cs = cs := by
  rw [normalForm, dif_pos (pass_eq_self h)]

/-- A pass changes nothing exactly if no pattern occurs. -/
theorem pass_eq_self_iff : pass rules cs = cs ↔ ∀ r ∈ rules, ¬ r.pattern <:+: cs := by
  constructor
  · intro h r hr hpattern
    have hlt := length_pass_lt_of_infix hr hpattern
    rw [h] at hlt
    exact absurd hlt (lt_irrefl _)
  · exact pass_eq_self

/-- A function that no step changes and that leaves texts without a pattern alone writes the normal
form. -/
theorem normalForm_eq_of_steps {F : List Char → List Char}
    (hstep : ∀ as bs, Step rules as bs → F bs = F as)
    (hself : ∀ cs, (∀ r ∈ rules, ¬ r.pattern <:+: cs) → F cs = cs) (cs : List Char) :
    normalForm rules cs = F cs :=
  calc normalForm rules cs
      = F (normalForm rules cs) := (hself _ fun _ hr => not_infix_normalForm hr cs).symm
    _ = F cs := (rewrites_normalForm rules cs).map_eq hstep

/-! ## The number of passes -/

/-- Each of the first `n` passes over `cs` changes the text, and one more pass over what they leave
changes nothing. -/
structure StopsAfter (rules : List Rule) (n : Nat) (cs ds : List Char) : Prop where
  result : (pass rules)^[n] cs = ds
  stops : pass rules ds = ds
  goes_on : ∀ m, m < n → pass rules ((pass rules)^[m] cs) ≠ (pass rules)^[m] cs

/-- The passes end with the normal form. Each of them takes at least one character away, so there are no
more of them than characters. -/
theorem exists_stopsAfter (rules : List Rule) (cs : List Char) :
    ∃ n, n ≤ cs.length ∧ StopsAfter rules n cs (normalForm rules cs) := by
  fun_induction normalForm rules cs with
  | case1 cs h =>
    refine ⟨0, Nat.zero_le _, rfl, h, ?_⟩
    intro m hm
    exact absurd hm (Nat.not_lt_zero m)
  | case2 cs h ih =>
    obtain ⟨n, hn, hstops⟩ := ih
    have hlt : (pass rules cs).length < cs.length := length_pass_lt h
    refine ⟨n + 1, by omega, hstops.result, hstops.stops, ?_⟩
    intro m hm
    cases m with
    | zero => exact h
    | succ m => exact hstops.goes_on m (Nat.lt_of_succ_lt_succ hm)

end AbiSig.Text
