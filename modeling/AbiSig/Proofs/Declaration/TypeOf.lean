import AbiSig.Declaration.Parameters
import AbiSig.Proofs.Declaration.Pieces

/-!
# The type of a piece

`scanTypes` reads an argument list once, with counters and a flag. The same types come out of the
pieces of the list, each looked at by itself: `typeOf` skips the spaces in front of a piece and cuts
it at the next space at top level.

In the middle of a piece the scan has read a part of the type, or has completed it. `typesFrom` gives
the types that are still found then, and follows the scan from character to character.
-/

namespace AbiSig.Declaration

open Text

variable {n : Nesting} {c : Char} {cs p : List Char} {reversed : List Char} {complete : Bool}

/-! ## The type of a piece -/

/-- The text up to its first space at top level; it is read with `n` open around it. -/
def upToSpace (n : Nesting) : List Char → List Char
  | [] => []
  | c :: cs => if (n.next c).isTopLevel ∧ c = ' ' then [] else c :: upToSpace (n.next c) cs

/-- The piece without the spaces in front, up to its first space at top level. -/
def typeOf (p : List Char) : List Char :=
  upToSpace {} (p.dropWhile (· == ' '))

theorem upToSpace_cons (h : ¬((n.next c).isTopLevel ∧ c = ' ')) :
    upToSpace n (c :: cs) = c :: upToSpace (n.next c) cs :=
  if_neg h

theorem upToSpace_space (cs : List Char) : upToSpace {} (' ' :: cs) = [] := rfl

/-- A space is at top level where it is read at top level. -/
theorem isTopLevel_next_space (n : Nesting) : n.next ' ' = n :=
  Nesting.next_of_not_isDelimiter rfl n

/-- A text without spaces is not cut. -/
theorem upToSpace_eq_self (h : ' ' ∉ cs) : upToSpace n cs = cs := by
  induction cs generalizing n with
  | nil => rfl
  | cons c cs ih =>
    rw [List.mem_cons, not_or] at h
    rw [upToSpace_cons fun hc => h.1 hc.2.symm, ih h.2]

theorem typeOf_space (p : List Char) : typeOf (' ' :: p) = typeOf p := rfl

theorem typeOf_cons (hc : c ≠ ' ') (p : List Char) :
    typeOf (c :: p) = c :: upToSpace (Nesting.next {} c) p := by
  rw [typeOf, List.dropWhile_cons_of_neg (by simpa using hc), upToSpace_cons fun h => hc h.2]

theorem typeOf_eq_upToSpace (h : p.head? ≠ some ' ') : typeOf p = upToSpace {} p := by
  cases p with
  | nil => rfl
  | cons c p =>
    have hc : c ≠ ' ' := by simpa using h
    rw [typeOf_cons hc, upToSpace_cons fun h => hc h.2]

theorem mem_of_mem_upToSpace (h : c ∈ upToSpace n cs) : c ∈ cs := by
  induction cs generalizing n with
  | nil => exact h
  | cons d cs ih =>
    rw [upToSpace] at h
    split at h
    · exact absurd h List.not_mem_nil
    · rcases List.mem_cons.1 h with rfl | h
      · exact List.mem_cons_self
      · exact List.mem_cons_of_mem d (ih h)

theorem mem_of_mem_typeOf (h : c ∈ typeOf p) : c ∈ p :=
  (List.dropWhile_sublist _).subset (mem_of_mem_upToSpace h)

/-- A piece without a type is one of spaces only. -/
theorem typeOf_eq_nil_iff : typeOf p = [] ↔ ∀ c ∈ p, c = ' ' := by
  induction p with
  | nil => simp [typeOf, upToSpace]
  | cons c p ih =>
    rw [List.forall_mem_cons]
    by_cases hc : c = ' '
    · rw [hc, typeOf_space, ih]
      simp
    · rw [typeOf_cons hc]
      simp [hc]

/-! ## From the middle of a piece -/

/-- The type that the scan finds in what is left of a piece, in the middle of which it stands. -/
def typeFrom (n : Nesting) (reversed : List Char) (complete : Bool) (p : List Char) : List Char :=
  if complete then reversed.reverse
  else if reversed.isEmpty then typeOf p
  else reversed.reverse ++ upToSpace n p

theorem typeFrom_nil : typeFrom n reversed complete [] = reversed.reverse := by
  cases complete with
  | true => rfl
  | false =>
    cases reversed with
    | nil => rfl
    | cons c reversed => simp [typeFrom, upToSpace]

/-- A space at top level ends the type, if it has begun. -/
theorem typeFrom_space (h : (n.next c).isTopLevel ∧ c = ' ') :
    typeFrom n reversed complete (c :: p) =
      typeFrom (n.next c) reversed (complete || !reversed.isEmpty) p := by
  cases complete with
  | true => rfl
  | false =>
    cases reversed with
    | nil => simp [typeFrom, h.2, typeOf_space]
    | cons d reversed => simp [typeFrom, upToSpace, if_pos h]

/-- Every other character belongs to the type. -/
theorem typeFrom_cons (hstart : reversed = [] → n = {})
    (h : ¬((n.next c).isTopLevel ∧ c = ' ')) :
    typeFrom n reversed false (c :: p) = typeFrom (n.next c) (c :: reversed) false p := by
  cases reversed with
  | nil =>
    have hn : n = {} := hstart rfl
    subst hn
    have hc : c ≠ ' ' := by
      rintro rfl
      exact h ⟨rfl, rfl⟩
    simp [typeFrom, typeOf_cons hc]
  | cons d reversed => simp [typeFrom, upToSpace_cons h]

/-- The types that the scan finds in a text, in the middle of a piece of which it stands. -/
def typesFrom (n : Nesting) (reversed : List Char) (complete : Bool) (cs : List Char) :
    List (List Char) :=
  match pieces n cs with
  | [] => []
  | p :: ps => typeFrom n reversed complete p :: ps.map typeOf

theorem typesFrom_start (cs : List Char) :
    typesFrom {} [] false cs = (pieces {} cs).map typeOf := by
  rcases exists_pieces_eq_cons {} cs with ⟨p, ps, hps⟩
  rw [typesFrom, hps]
  rfl

theorem typesFrom_nil : typesFrom n reversed complete [] = [reversed.reverse] := by
  show [typeFrom n reversed complete []] = [reversed.reverse]
  rw [typeFrom_nil]

/-- A comma at top level ends the piece. -/
theorem typesFrom_comma (h : (n.next c).isTopLevel ∧ c = ',') :
    typesFrom n reversed complete (c :: cs) =
      reversed.reverse :: typesFrom (n.next c) [] false cs := by
  have hnext : n.next c = {} := Nesting.isTopLevel_iff.1 h.1
  rw [typesFrom, pieces, if_pos h, hnext, typesFrom_start]
  show typeFrom n reversed complete [] :: (pieces {} cs).map typeOf = _
  rw [typeFrom_nil]

theorem typesFrom_space (h : (n.next c).isTopLevel ∧ c = ' ') :
    typesFrom n reversed complete (c :: cs) =
      typesFrom (n.next c) reversed (complete || !reversed.isEmpty) cs := by
  rcases exists_pieces_eq_cons (n.next c) cs with ⟨p, ps, hps⟩
  have hcomma : ¬((n.next c).isTopLevel ∧ c = ',') := by
    rw [h.2]
    exact fun hc => absurd hc.2 (by decide)
  rw [typesFrom, typesFrom, pieces_cons hcomma, hps]
  show typeFrom n reversed complete (c :: p) :: _ = _
  rw [typeFrom_space h]

theorem typesFrom_complete (hcomma : ¬((n.next c).isTopLevel ∧ c = ',')) :
    typesFrom n reversed true (c :: cs) = typesFrom (n.next c) reversed true cs := by
  rcases exists_pieces_eq_cons (n.next c) cs with ⟨p, ps, hps⟩
  rw [typesFrom, typesFrom, pieces_cons hcomma, hps]
  rfl

theorem typesFrom_cons (hstart : reversed = [] → n = {})
    (hcomma : ¬((n.next c).isTopLevel ∧ c = ',')) (hspace : ¬((n.next c).isTopLevel ∧ c = ' ')) :
    typesFrom n reversed false (c :: cs) = typesFrom (n.next c) (c :: reversed) false cs := by
  rcases exists_pieces_eq_cons (n.next c) cs with ⟨p, ps, hps⟩
  rw [typesFrom, typesFrom, pieces_cons hcomma, hps]
  show typeFrom n reversed false (c :: p) :: _ = _
  rw [typeFrom_cons hstart hspace]

end AbiSig.Declaration
