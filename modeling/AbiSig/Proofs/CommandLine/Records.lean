import AbiSig.Proofs.CommandLine.Rows
import AbiSig.Proofs.Json.Strings

/-!
# Records

Interfaces are shown as a JSON array of records, one member on each line. `ShowsRecords` says what is
written, line by line: the strings say the texts of the interface, whatever characters these hold, and
the digest and the selector stand there in hexadecimal (`showsRecords_pretty`). From what is written
all of this is read back (`ShowsRecords.inj`).

`Presents` is this form, or that of the rows, as the user asks (`presents_unlines`).
-/

namespace AbiSig.CommandLine

open Json

/-- The word for a kind. -/
def KindIs (kind : Kind) (text : List Char) : Prop :=
  kind = .method ∧ text = "method".toList ∨ kind = .event ∧ text = "event".toList

/-- The lines of the members of a record: the texts of the interface as strings. -/
inductive ShowsMembers (i : Interface) : List String → Prop where
  | intro {normalized signature kind digest selector : String} {word digits digits' : List Char}
      (hnormalized : IsString normalized i.normalized.text.toList)
      (hsignature : IsString signature i.signature.text.toList)
      (hword : KindIs i.kind word) (hkind : IsString kind word)
      (hdigits : Hex.Prints i.digest.bytes.toList digits) (hdigest : IsString digest digits)
      (hdigits' : Hex.Prints i.selector.bytes.toList digits') (hselector : IsString selector digits') :
      ShowsMembers i
        ["    \"normalized\": " ++ normalized ++ ",",
         "    \"canonical_signature\": " ++ signature ++ ",",
         "    \"kind\": " ++ kind ++ ",",
         "    \"hash_hex\": " ++ digest ++ ",",
         "    \"selector_hex\": " ++ selector]

/-- The lines of records, one after the other; a comma stands behind all but the last one. -/
inductive ShowsItems : List Interface → List String → Prop where
  | last {i : Interface} {members : List String} (hi : ShowsMembers i members) :
      ShowsItems [i] ("  \x7b" :: (members ++ ["  \x7d"]))
  | cons {i : Interface} {is : List Interface} {members lines : List String}
      (hi : ShowsMembers i members) (his : ShowsItems is lines) :
      ShowsItems (i :: is) ("  \x7b" :: (members ++ "  \x7d," :: lines))

/-- The text is an array of the records of the interfaces. -/
inductive ShowsRecords (s : String) : List Interface → Prop where
  | none (hs : s = "[]\n") : ShowsRecords s []
  | some {is : List Interface} {lines : List String} (his : ShowsItems is lines)
      (hs : HasLines s ("[" :: (lines ++ ["]"]))) : ShowsRecords s is

/-- The interfaces have the same record. -/
structure SameRecord (i j : Interface) : Prop where
  normalized : i.normalized.text = j.normalized.text
  signature : i.signature.text = j.signature.text
  kind : i.kind = j.kind
  digest : i.digest = j.digest
  selector : i.selector = j.selector

variable {i j : Interface} {is js : List Interface} {lines members : List String}

/-! ## Lines -/

theorem oneLine_of_isString {s : String} {text : List Char} (h : IsString s text) : OneLine s :=
  fun hfeed => absurd (h.le_toNat_of_mem hfeed) (by decide)

theorem ShowsMembers.oneLine (h : ShowsMembers i members) : ∀ l ∈ members, OneLine l := by
  cases h with
  | intro hnormalized hsignature _ hkind _ hdigest _ hselector =>
    have hmember {s : String} {text : List Char} (name : String) (hname : OneLine name)
        (hs : IsString s text) : OneLine (name ++ s ++ ",") :=
      (hname.append (oneLine_of_isString hs)).append (by decide)
    simp only [List.forall_mem_cons, List.not_mem_nil, false_imp_iff, implies_true, and_true]
    exact ⟨hmember _ (by decide) hnormalized, hmember _ (by decide) hsignature,
      hmember _ (by decide) hkind, hmember _ (by decide) hdigest,
      OneLine.append (by decide) (oneLine_of_isString hselector)⟩

theorem ShowsItems.oneLine (h : ShowsItems is lines) : ∀ l ∈ lines, OneLine l := by
  induction h with
  | last hi =>
    rw [List.forall_mem_cons, List.forall_mem_append, List.forall_mem_singleton]
    exact ⟨by decide, hi.oneLine, by decide⟩
  | cons hi _ ih =>
    rw [List.forall_mem_cons, List.forall_mem_append, List.forall_mem_cons]
    exact ⟨by decide, hi.oneLine, by decide, ih⟩

/-! ## What is written -/

/-- The lines of the members as they are written. -/
def memberLines (i : Interface) : List String :=
  ["    \"normalized\": " ++ quote i.normalized.text ++ ",",
   "    \"canonical_signature\": " ++ quote i.signature.text ++ ",",
   "    \"kind\": " ++ quote i.kind.word ++ ",",
   "    \"hash_hex\": " ++ quote i.digest.toHex ++ ",",
   "    \"selector_hex\": " ++ quote i.selector.toHex]

/-- The lines of the records as they are written. -/
def itemLines : List Interface → List String
  | [] => []
  | [i] => "  \x7b" :: (memberLines i ++ ["  \x7d"])
  | i :: j :: is => "  \x7b" :: (memberLines i ++ "  \x7d," :: itemLines (j :: is))

theorem showsMembers_memberLines (i : Interface) : ShowsMembers i (memberLines i) := by
  have hword : KindIs i.kind i.kind.word.toList := by
    cases i.kind with
    | method => exact Or.inl ⟨rfl, rfl⟩
    | event => exact Or.inr ⟨rfl, rfl⟩
  exact .intro (isString_quote _) (isString_quote _) hword (isString_quote _)
    (Hex.prints_hexText _) (isString_quote _) (Hex.prints_hexText _) (isString_quote _)

theorem showsItems_itemLines (i : Interface) (is : List Interface) :
    ShowsItems (i :: is) (itemLines (i :: is)) := by
  induction is generalizing i with
  | nil => exact .last (showsMembers_memberLines i)
  | cons j is ih => exact .cons (showsMembers_memberLines i) (ih j)

theorem unlines_cons (l : String) (ls : List String) : unlines (l :: ls) = l ++ "\n" ++ unlines ls :=
  String.join_cons

theorem unlines_append (ls ls' : List String) : unlines (ls ++ ls') = unlines ls ++ unlines ls' := by
  simp [unlines]

/-- A record is written on these lines. -/
theorem indent_prettyAt_recordOf (i : Interface) :
    indent 1 ++ prettyAt 1 (recordOf i) = unlines ("  \x7b" :: memberLines i) ++ "  \x7d" := by
  have hnormalized : quote "normalized" = "\"normalized\"" := by decide
  have hsignature : quote "canonical_signature" = "\"canonical_signature\"" := by decide
  have hkind : quote "kind" = "\"kind\"" := by decide
  have hdigest : quote "hash_hex" = "\"hash_hex\"" := by decide
  have hselector : quote "selector_hex" = "\"selector_hex\"" := by decide
  have hindent : indent 1 = "  " ∧ indent 2 = "    " := by decide
  rw [← String.toList_inj]
  simp [recordOf, prettyAt, prettyMembers, enclose, memberLines, unlines, hnormalized, hsignature,
    hkind, hdigest, hselector, hindent]

/-- Records are written on their lines, with a comma behind each of them but the last. -/
theorem intercalate_records (i : Interface) (is : List Interface) :
    ",\n".intercalate ((i :: is).map fun i => indent 1 ++ prettyAt 1 (recordOf i)) ++ "\n" =
      unlines (itemLines (i :: is)) := by
  induction is generalizing i with
  | nil =>
    rw [List.map_singleton, String.intercalate_singleton, indent_prettyAt_recordOf, itemLines,
      ← List.cons_append, unlines_append, String.append_assoc]
    rfl
  | cons j is ih =>
    have hrest := ih j
    rw [List.map_cons] at hrest
    have hcomma (rest : String) : "  \x7d" ++ (",\n" ++ rest) = "  \x7d," ++ ("\n" ++ rest) := by
      rw [← String.append_assoc, ← String.append_assoc]
      rfl
    rw [List.map_cons, List.map_cons, String.intercalate_cons_cons, indent_prettyAt_recordOf, itemLines,
      ← List.cons_append, unlines_append, unlines_cons "  \x7d,"]
    simp only [String.append_assoc, hrest, hcomma]

theorem prettyItems_eq_map (depth : Nat) (items : List Json) :
    prettyItems depth items = items.map (prettyAt depth) := by
  induction items with
  | nil => rfl
  | cons item items ih => rw [prettyItems, ih, List.map_cons]

/-- The records that are written are those of the interfaces. -/
theorem showsRecords_pretty (is : List Interface) :
    ShowsRecords (unlines [(recordsOf is).pretty]) is := by
  cases is with
  | nil => exact .none (by decide)
  | cons i is =>
    have hitems := showsItems_itemLines i is
    have htext : unlines [(recordsOf (i :: is)).pretty] =
        unlines ("[" :: (itemLines (i :: is) ++ ["]"])) := by
      have hindent : indent 0 = "" := by decide
      have harray : (recordsOf (i :: is)).pretty = "[" ++ "\n" ++
          ",\n".intercalate ((i :: is).map fun i => indent 1 ++ prettyAt 1 (recordOf i)) ++ "\n" ++
          indent 0 ++ "]" := by
        rw [recordsOf, pretty, prettyAt, prettyItems_eq_map, List.map_map, List.map_cons, enclose,
          ← List.map_cons, List.map_map]
        · rfl
        · exact List.cons_ne_nil _ _
      rw [harray, ← List.cons_append, unlines_append, unlines_cons, unlines_cons, ← intercalate_records,
        hindent]
      simp only [String.append_assoc]
      rfl
    refine .some hitems ?_
    rw [htext]
    apply hasLines_unlines
    rw [List.forall_mem_cons, List.forall_mem_append, List.forall_mem_singleton]
    exact ⟨by decide, hitems.oneLine, by decide⟩

/-! ## What is read -/

theorem KindIs.inj {kind kind' : Kind} {text : List Char} (h : KindIs kind text)
    (h' : KindIs kind' text) : kind = kind' := by
  rcases h with ⟨rfl, rfl⟩ | ⟨rfl, rfl⟩
  · rcases h' with ⟨rfl, -⟩ | ⟨-, htext⟩
    · rfl
    · exact absurd htext (by decide)
  · rcases h' with ⟨-, htext⟩ | ⟨rfl, -⟩
    · exact absurd htext (by decide)
    · rfl

theorem ShowsMembers.inj (h : ShowsMembers i members) (h' : ShowsMembers j members) :
    SameRecord i j := by
  cases h with
  | intro hnormalized hsignature hword hkind hdigits hdigest hbytes hselector =>
    generalize hmembers : [_, _, _, _, _] = members' at h'
    cases h' with
    | intro hnormalized' hsignature' hword' hkind' hdigits' hdigest' hbytes' hselector' =>
      simp only [List.cons.injEq, String.append_left_inj, String.append_right_inj, and_true] at hmembers
      obtain ⟨rfl, rfl, rfl, rfl, rfl⟩ := hmembers
      constructor
      case normalized => exact String.toList_inj.1 (hnormalized.inj hnormalized')
      case signature => exact String.toList_inj.1 (hsignature.inj hsignature')
      case kind =>
        rw [hkind.inj hkind'] at hword
        exact hword.inj hword'
      case digest =>
        rw [hdigest.inj hdigest'] at hdigits
        exact congrArg Digest.mk (Vector.toList_inj.1 (hdigits.inj hdigits'))
      case selector =>
        rw [hselector.inj hselector'] at hbytes
        exact congrArg Selector.mk (Vector.toList_inj.1 (hbytes.inj hbytes'))

/-- The members of a record have a fixed number of lines, so it is clear where they end. -/
theorem ShowsMembers.append_inj {members' rest rest' : List String} (h : ShowsMembers i members)
    (h' : ShowsMembers j members') (hsame : members ++ rest = members' ++ rest') :
    SameRecord i j ∧ rest = rest' := by
  have hlength {i : Interface} {members : List String} (h : ShowsMembers i members) :
      members.length = 5 := by
    cases h
    rfl
  obtain ⟨rfl, hrest⟩ := List.append_inj hsame ((hlength h).trans (hlength h').symm)
  exact ⟨h.inj h', hrest⟩

/-- Lines of records are those of the same records only. -/
theorem ShowsItems.inj (h : ShowsItems is lines) (h' : ShowsItems js lines) :
    List.Forall₂ SameRecord is js := by
  induction h generalizing js with
  | @last i members hi =>
    generalize hlines : "  \x7b" :: (members ++ ["  \x7d"]) = lines at h'
    cases h' with
    | last hj =>
      obtain ⟨hsame, -⟩ := hi.append_inj hj (List.cons.inj hlines).2
      exact .cons hsame .nil
    | cons hj =>
      obtain ⟨-, hbehind⟩ := hi.append_inj hj (List.cons.inj hlines).2
      exact absurd (List.cons.inj hbehind).1 (by decide)
  | @cons i is members rest hi _ ih =>
    generalize hlines : "  \x7b" :: (members ++ "  \x7d," :: rest) = lines at h'
    cases h' with
    | last hj =>
      obtain ⟨-, hbehind⟩ := hi.append_inj hj (List.cons.inj hlines).2
      exact absurd (List.cons.inj hbehind).1 (by decide)
    | cons hj hjs =>
      obtain ⟨hsame, hbehind⟩ := hi.append_inj hj (List.cons.inj hlines).2
      rw [← (List.cons.inj hbehind).2] at hjs
      exact .cons hsame (ih hjs)

/-- An array tells the records in it. -/
theorem ShowsRecords.inj {s : String} (h : ShowsRecords s is) (h' : ShowsRecords s js) :
    List.Forall₂ SameRecord is js := by
  have hempty : HasLines "[]\n" ["[]"] := rfl
  cases h with
  | none hs =>
    cases h' with
    | none => exact .nil
    | some his hlines =>
      rw [hs] at hlines
      exact absurd (hempty.inj hlines) (by simp)
  | some his hlines =>
    cases h' with
    | none hs =>
      rw [hs] at hlines
      exact absurd (hempty.inj hlines) (by simp)
    | some hjs hlines' =>
      have hsame := (List.cons.inj (hlines.inj hlines')).2
      rw [List.append_cancel_right_eq] at hsame
      subst hsame
      exact his.inj hjs

/-! ## Either form -/

/-- The text shows the interfaces, as JSON or as one row for each. -/
def Presents (json : Bool) (s : String) (is : List Interface) : Prop :=
  if json then ShowsRecords s is else ∃ rows, HasLines s rows ∧ List.Forall₂ Shows rows is

/-- Interfaces that declarations declare are shown in either form. -/
theorem presents_unlines (json : Bool) (his : ∀ i ∈ is, ∃ raw, canonicalize raw = .ok i) :
    Presents json (unlines (if json then [(recordsOf is).pretty] else is.map row)) is := by
  cases json with
  | true => exact showsRecords_pretty is
  | false =>
    refine ⟨is.map row, ?_, ?_⟩
    · apply hasLines_unlines
      intro line hline
      obtain ⟨i, hi, rfl⟩ := List.mem_map.1 hline
      obtain ⟨raw, hraw⟩ := his i hi
      exact oneLine_row hraw
    · rw [List.forall₂_map_left_iff, List.forall₂_same]
      intro i hi
      obtain ⟨raw, hraw⟩ := his i hi
      exact shows_row hraw

end AbiSig.CommandLine
