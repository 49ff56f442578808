import AbiSig.Nesting
import AbiSig.Text.Blank
import Mathlib.Data.List.Infix

/-!
# Balanced texts

The nesting counters read a text character by character. Seen from outside, a counter stays at or
above zero when no prefix closes more than it opens, and it ends at zero when the whole text closes
as much as it opens: `Balanced`. Between the two stands `depthAfter`, one counter alone.

* `depthAfter_eq_some_iff`: one counter, by the numbers of its two delimiters.
* `run_eq_some_iff`: the two counters do not see each other.
* `checkBalanced_eq_ok_iff`: what the check accepts.
* `run_filter`: only delimiters count.
-/

namespace AbiSig

open Text

/-! ## One counter -/

/-- The counter for `opening` and `closing` never goes below zero over the text and ends at zero. -/
structure Balanced (opening closing : Char) (cs : List Char) : Prop where
  /-- No prefix closes more than it opens. -/
  never_negative : ∀ p, p <+: cs → p.count closing ≤ p.count opening
  /-- The whole text closes what it opens. -/
  ends_at_zero : cs.count opening = cs.count closing

/-- The counter after the text, unless it went below zero; before the text it stood at `depth`. -/
def depthAfter (opening closing : Char) (depth : Nat) : List Char → Option Nat
  | [] => some depth
  | c :: cs =>
    if c = opening then depthAfter opening closing (depth + 1) cs
    else if c = closing then
      if depth = 0 then none else depthAfter opening closing (depth - 1) cs
    else depthAfter opening closing depth cs

section Counter

variable {opening closing : Char} {depth depth' : Nat} {c : Char} {as bs cs : List Char}

theorem forall_prefix_cons {P : List Char → Prop} :
    (∀ p, p <+: c :: cs → P p) ↔ P [] ∧ ∀ p, p <+: cs → P (c :: p) := by
  constructor
  · intro h
    exact ⟨h [] List.nil_prefix, fun p hp => h (c :: p) ((List.cons_prefix_cons).2 ⟨rfl, hp⟩)⟩
  · rintro ⟨hnil, hcons⟩ p hp
    rcases List.prefix_cons_iff.1 hp with rfl | ⟨q, rfl, hq⟩
    · exact hnil
    · exact hcons q hq

/-- The counter by the numbers of its two delimiters. -/
theorem depthAfter_eq_some_iff (hne : opening ≠ closing) :
    depthAfter opening closing depth cs = some depth' ↔
      (∀ p, p <+: cs → p.count closing ≤ depth + p.count opening) ∧
        depth + cs.count opening = depth' + cs.count closing := by
  induction cs generalizing depth with
  | nil => simp [depthAfter]
  | cons c cs ih =>
    rw [forall_prefix_cons, depthAfter]
    by_cases ho : c = opening
    · subst ho
      -- every prefix that goes on behind `c` has opened one level more
      rw [if_pos rfl, ih]
      simp only [List.count_nil, List.count_cons_self, List.count_cons_of_ne hne]
      have hshift (a b : Nat) : a ≤ depth + 1 + b ↔ a ≤ depth + (b + 1) := by omega
      have hends : depth + 1 + cs.count c = depth' + cs.count closing ↔
          depth + (cs.count c + 1) = depth' + cs.count closing := by omega
      simp only [hshift, hends, Nat.zero_le, true_and]
    · by_cases hc : c = closing
      · subst hc
        rw [if_neg ho, if_pos rfl]
        -- the level that `c` closes must be open
        cases depth with
        | zero =>
          -- the prefix of this one character goes below zero
          constructor
          · intro h
            exact absurd h (by simp)
          · rintro ⟨⟨-, hfront⟩, -⟩
            have hfirst := hfront [] List.nil_prefix
            simp [List.count_cons_of_ne hne.symm] at hfirst
        | succ depth =>
          rw [if_neg (Nat.succ_ne_zero depth), Nat.add_sub_cancel, ih]
          simp only [List.count_nil, List.count_cons_self, List.count_cons_of_ne hne.symm]
          have hshift (a b : Nat) : a + 1 ≤ depth + 1 + b ↔ a ≤ depth + b := by omega
          have hends : depth + 1 + cs.count opening = depth' + (cs.count c + 1) ↔
              depth + cs.count opening = depth' + cs.count c := by omega
          simp only [hshift, hends, Nat.zero_le, true_and]
      · rw [if_neg ho, if_neg hc, ih]
        simp only [List.count_nil, List.count_cons_of_ne ho, List.count_cons_of_ne hc,
          Nat.zero_le, true_and]

theorem depthAfter_eq_zero_iff (hne : opening ≠ closing) :
    depthAfter opening closing 0 cs = some 0 ↔ Balanced opening closing cs := by
  rw [depthAfter_eq_some_iff hne]
  simp only [Nat.zero_add]
  exact ⟨fun ⟨hfront, hends⟩ => ⟨hfront, hends⟩, fun h => ⟨h.never_negative, h.ends_at_zero⟩⟩

theorem depthAfter_append :
    depthAfter opening closing depth (as ++ bs) =
      (depthAfter opening closing depth as).bind fun d => depthAfter opening closing d bs := by
  induction as generalizing depth with
  | nil => rfl
  | cons a as ih =>
    rw [List.cons_append, depthAfter, depthAfter]
    split
    · exact ih
    · split
      · split
        · rfl
        · exact ih
      · exact ih

/-- Other characters do not count. -/
theorem depthAfter_filter {p : Char → Bool} (hopening : p opening = true)
    (hclosing : p closing = true) (cs : List Char) :
    depthAfter opening closing depth (cs.filter p) = depthAfter opening closing depth cs := by
  induction cs generalizing depth with
  | nil => rfl
  | cons c cs ih =>
    by_cases hc : p c = true
    · rw [List.filter_cons_of_pos hc, depthAfter, depthAfter]
      split
      · exact ih
      · split
        · split
          · rfl
          · exact ih
        · exact ih
    · have ho : c ≠ opening := fun h => hc (h ▸ hopening)
      have hcl : c ≠ closing := fun h => hc (h ▸ hclosing)
      rw [List.filter_cons_of_neg hc, ih, depthAfter, if_neg ho, if_neg hcl]

end Counter

/-! ## Both counters -/

/-- Whether the character opens or closes a level. -/
def isDelimiter (c : Char) : Bool :=
  c == '(' || c == ')' || c == '[' || c == ']'

theorem depthAfter_of_filter_eq {depth : Nat} {as bs : List Char}
    (h : as.filter isDelimiter = bs.filter isDelimiter) :
    depthAfter '(' ')' depth as = depthAfter '(' ')' depth bs := by
  rw [← depthAfter_filter (p := isDelimiter) rfl rfl as, h, depthAfter_filter rfl rfl]

theorem not_isBlank_of_isDelimiter {c : Char} (h : isDelimiter c = true) : isBlank c = false := by
  simp only [isDelimiter, Bool.or_eq_true, beq_iff_eq] at h
  rcases h with ((rfl | rfl) | rfl) | rfl <;> decide

theorem not_isDelimiter_of_isBlank {c : Char} (h : isBlank c = true) : isDelimiter c = false := by
  rw [← Bool.not_eq_true]
  intro hc
  rw [not_isBlank_of_isDelimiter hc] at h
  exact absurd h (by simp)

namespace Nesting

/-- The counters after the text, unless one of them went below zero. -/
def run (n : Nesting) : List Char → Option Nesting
  | [] => some n
  | c :: cs =>
    match n.step c with
    | .ok n' => n'.run cs
    | .error _ => none

variable {n m : Nesting} {c : Char} {as bs cs : List Char}

@[simp]
theorem run_nil : n.run [] = some n := rfl

theorem run_cons_of_step {n' : Nesting} (h : n.step c = .ok n') : n.run (c :: cs) = n'.run cs := by
  rw [run, h]

theorem step_of_not_isDelimiter (hc : isDelimiter c = false) : n.step c = .ok n := by
  simp only [isDelimiter, Bool.or_eq_false_iff, beq_eq_false_iff_ne] at hc
  exact step_eq_ok_self hc.1.1.1 hc.1.2 hc.1.1.2 hc.2 n

/-- The two counters do not see each other. -/
theorem run_eq_some_iff :
    n.run cs = some m ↔
      depthAfter '(' ')' n.parens cs = some m.parens ∧
        depthAfter '[' ']' n.brackets cs = some m.brackets := by
  induction cs generalizing n with
  | nil => cases n; cases m; simp [depthAfter]
  | cons c cs ih =>
    rcases n with ⟨parens, brackets⟩
    -- a delimiter moves its own counter and leaves the other one as it is
    by_cases h₁ : c = '('
    · subst h₁
      simpa [run, step, depthAfter] using ih
    by_cases h₂ : c = '['
    · subst h₂
      simpa [run, step, depthAfter] using ih
    by_cases h₃ : c = ')'
    · subst h₃
      cases parens with
      | zero => simp [run, step, depthAfter]
      | succ parens => simpa [run, step, depthAfter] using ih
    by_cases h₄ : c = ']'
    · subst h₄
      cases brackets with
      | zero => simp [run, step, depthAfter]
      | succ brackets => simpa [run, step, depthAfter] using ih
    rw [run_cons_of_step (step_eq_ok_self h₁ h₂ h₃ h₄ _), ih]
    simp [depthAfter, h₁, h₂, h₃, h₄]

/-- The counters end where they began exactly over texts that are balanced in both. -/
theorem run_eq_zero_iff :
    run {} cs = some {} ↔ Balanced '(' ')' cs ∧ Balanced '[' ']' cs := by
  rw [run_eq_some_iff]
  exact and_congr (depthAfter_eq_zero_iff (by decide)) (depthAfter_eq_zero_iff (by decide))

theorem run_append : n.run (as ++ bs) = (n.run as).bind fun n' => n'.run bs := by
  induction as generalizing n with
  | nil => rfl
  | cons a as ih =>
    rw [List.cons_append, run, run]
    split
    · exact ih
    · rfl

/-- Other characters do not count. -/
theorem run_filter {p : Char → Bool} (hp : ∀ c, isDelimiter c = true → p c = true)
    (cs : List Char) : n.run (cs.filter p) = n.run cs := by
  induction cs generalizing n with
  | nil => rfl
  | cons c cs ih =>
    by_cases hc : p c = true
    · rw [List.filter_cons_of_pos hc, run, run]
      split
      · exact ih
      · rfl
    · have hother : isDelimiter c = false := by
        rw [← Bool.not_eq_true]
        exact fun h => hc (hp c h)
      rw [List.filter_cons_of_neg hc, run_cons_of_step (step_of_not_isDelimiter hother), ih]

/-- So texts with the same delimiters have the same counters. -/
theorem run_of_filter_eq (h : as.filter isDelimiter = bs.filter isDelimiter) :
    n.run as = n.run bs := by
  rw [← run_filter (p := isDelimiter) (fun _ hc => hc) as, h, run_filter fun _ hc => hc]

theorem run_removeBlanks (cs : List Char) : n.run (removeBlanks cs) = n.run cs := by
  apply run_filter
  intro c hc
  simp [not_isBlank_of_isDelimiter hc]

theorem run_of_not_isDelimiter (h : ∀ c ∈ cs, isDelimiter c = false) : n.run cs = some n := by
  have hnone : cs.filter isDelimiter = [] := by
    rw [List.filter_eq_nil_iff]
    intro c hc
    simp [h c hc]
  rw [← run_filter (p := isDelimiter) fun _ hc => hc, hnone, run_nil]

theorem scan_eq_ok_iff (offset : Nat) : n.scan offset cs = .ok m ↔ n.run cs = some m := by
  induction cs generalizing n offset with
  | nil => simp [scan]
  | cons c cs ih =>
    rw [scan, run]
    cases n.step c with
    | error => simp
    | ok n' => exact ih _

theorem finish_eq_ok_iff (offset : Nat) : n.finish offset = .ok () ↔ n = {} := by
  rcases n with ⟨parens, brackets⟩
  simp only [finish, unclosed?]
  cases parens with
  | succ parens => simp
  | zero =>
    cases brackets with
    | succ brackets => simp
    | zero => simp

end Nesting

/-! ## The check -/

/-- Two stages succeed when the first one does and the second one does with its result. -/
theorem bind_eq_ok_iff {ε α β : Type} {x : Except ε α} {f : α → Except ε β} {b : β} :
    (x >>= f) = .ok b ↔ ∃ a, x = .ok a ∧ f a = .ok b := by
  cases x with
  | error e => simp [bind, Except.bind]
  | ok a => simp [bind, Except.bind]

/-- The check accepts the texts over which both counters end at zero. -/
theorem checkBalanced_eq_ok_iff (offset : Nat) (cs : List Char) :
    checkBalanced offset cs = .ok () ↔ Nesting.run {} cs = some {} := by
  rw [checkBalanced, bind_eq_ok_iff]
  constructor
  · rintro ⟨n, hscan, hfinish⟩
    have hn : n = {} := (Nesting.finish_eq_ok_iff _).1 hfinish
    rw [(Nesting.scan_eq_ok_iff offset).1 hscan, hn]
  · intro h
    exact ⟨{}, (Nesting.scan_eq_ok_iff offset).2 h, (Nesting.finish_eq_ok_iff _).2 rfl⟩

end AbiSig
