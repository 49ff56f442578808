import AbiSig.CommandLine.Directory
import AbiSig.Proofs.Batch.Outcome
import AbiSig.Proofs.CommandLine.Records
import AbiSig.Proofs.Registry.Search

/-!
# Lookups in what a batch shows

The commands `batch` and `lookup` work on the same listing. The first one shows what the listing
declares; the second one searches a registry that has loaded the listing. The registry can be left out
of the account: a lookup shows what `search` finds in the list that a batch shows.

1. **The search**: `search` picks from a list of interfaces by digest or by selector. The registry of
   a listing finds the same (`find_load`).
2. **Own keys**: the digest and the selector of an interface, as they are printed or retyped, are
   found (`search_retyped_digest`, `search_retyped_selector`).
3. **A signature declared twice**: what is declared by `twiceListed`, and found there.
4. **Runs**: `Agreement` says what the two commands report on a listing that can be read, as the text
   that is written (`Presents`), and `batch_lookup_agreement` that they do.
-/

namespace AbiSig.CommandLine

open Registry

/-! ## The search -/

/-- What the accepted declarations of a listing declare, in order. -/
def declared (listing : String) : List Interface :=
  (Listing.declarations listing).filterMap fun line => (canonicalize line).toOption

/-- What a search through interfaces finds. For a text of 32 bytes that is the first interface with
this digest, for a text of four bytes all interfaces with this selector, in order, of those with the
same digest the first one. -/
def search (is : List Interface) (sought : String) : Except SignatureError (List Interface) :=
  match Digest.parse sought with
  | .ok d => .ok (is.find? (·.digest == d)).toList
  | .error _ => (Selector.parse sought).map fun s => (is.filter (·.selector == s)).foldl noted []

variable {is found : List Interface} {i : Interface} {listing other file sought : String} {json : Bool}

theorem map_accepted_eq_declared (listing : String) :
    (canonicalizeAll (Listing.declarations listing)).accepted.map (·.2) = declared listing := by
  unfold canonicalizeAll declared
  rw [Outcome.map_accepted_ofResults, List.filterMap_map]
  rfl

theorem exists_of_mem_declared (h : i ∈ declared listing) : ∃ raw, canonicalize raw = .ok i := by
  obtain ⟨raw, -, hraw⟩ := List.mem_filterMap.1 h
  exact ⟨raw, Outcome.toOption_eq_some_iff.1 hraw⟩

/-- Nothing is found but what is searched. -/
theorem mem_of_search (h : search is sought = .ok found) : ∀ i ∈ found, i ∈ is := by
  unfold search at h
  split at h
  · obtain rfl := Except.ok.inj h
    intro i hi
    exact List.mem_of_find?_eq_some (Option.mem_toList.1 hi)
  · cases hparse : Selector.parse sought with
    | error e =>
      rw [hparse] at h
      contradiction
    | ok s =>
      rw [hparse] at h
      obtain rfl := Except.ok.inj h
      intro i hi
      have hmem := (sublist_foldl_noted [] (is.filter (·.selector == s))).subset hi
      exact List.mem_of_mem_filter hmem

/-- The registry of a listing finds what a search through the declared interfaces finds. -/
theorem find_load (listing sought : String) :
    find (Registry.load {} listing).registry sought = search (declared listing) sought := by
  unfold find search
  cases Digest.parse sought with
  | ok d =>
    simp only [withDigest?_load]
    rfl
  | error e =>
    have hfound := funext (withSelector_load listing)
    simp only [hfound]
    rfl

/-- Only the accepted declarations count for what a listing declares. -/
theorem declared_eq_filterMap_filter (listing : String) :
    declared listing = ((Listing.declarations listing).filter fun line =>
      (canonicalize line).isOk).filterMap fun line => (canonicalize line).toOption := by
  unfold declared
  rw [List.filterMap_filter]
  apply List.filterMap_congr
  intro line _
  cases canonicalize line with
  | ok i => rfl
  | error e => rfl

/-! ## Own keys -/

/-- The digest of an interface, retyped from its printed form, finds an interface with this digest. -/
theorem search_retyped_digest (hi : i ∈ is)
    (hsought : Hex.Retypes i.digest.toHex.toList sought.toList) :
    ∃ found, search is sought = .ok found ∧ ∃ j ∈ found, j.digest = i.digest := by
  have hparse : Digest.parse sought = .ok i.digest := by
    unfold Digest.parse
    rw [Hex.parse_of_retypes hsought]
  obtain ⟨j, hfind, hdigest⟩ := exists_find?_digest hi
  unfold search
  simp only [hparse, hfind]
  exact ⟨[j], rfl, j, List.mem_singleton_self j, hdigest⟩

/-- The selector of an interface, retyped from its printed form, finds an interface with its
digest: four bytes are no digest. -/
theorem search_retyped_selector (hi : i ∈ is)
    (hsought : Hex.Retypes i.selector.toHex.toList sought.toList) :
    ∃ found, search is sought = .ok found ∧ ∃ j ∈ found, j.digest = i.digest := by
  have hparse : Selector.parse sought = .ok i.selector := by
    unfold Selector.parse
    rw [Hex.parse_of_retypes hsought]
  have hlength : i.selector.bytes.toList.length ≠ 32 := by
    rw [Vector.length_toList]
    decide
  obtain ⟨fault, hfault⟩ := Hex.parse_of_retypes_of_ne hsought hlength
  have hdigest : Digest.parse sought = .error (.invalidHex sought fault) := by
    unfold Digest.parse
    rw [hfault]
  unfold search
  rw [hdigest, hparse]
  refine ⟨_, rfl, ?_⟩
  exact exists_mem_foldl_noted [] (List.mem_filter.2 ⟨hi, beq_self_eq_true i.selector⟩)

/-! ## A signature declared twice -/

/-- A listing with two declarations of one signature, and one that fails. -/
def twiceListed : String :=
  "transfer(address,uint256)\nbroken(\ntransfer( address to , uint256 value )\n"

/-- The interface of a transfer that was declared with the given parameters. -/
def transfer (parameters : String) : Interface :=
  .ofSignature ⟨"transfer", parameters⟩ ⟨"transfer(address,uint256)"⟩

theorem digest_transfer (parameters parameters' : String) :
    (transfer parameters).digest = (transfer parameters').digest :=
  rfl

theorem selector_transfer (parameters : String) :
    (transfer parameters).selector = ⟨#v[0xa9, 0x05, 0x9c, 0xbb]⟩ := by
  have hdigest : (Signature.digest ⟨"transfer(address,uint256)"⟩).selector =
      ⟨#v[0xa9, 0x05, 0x9c, 0xbb]⟩ := by decide +kernel
  exact hdigest

theorem row_transfer (parameters : String) :
    row (transfer parameters) = "0xa9059cbb  method  transfer(address,uint256)" := by
  have hkind : (transfer parameters).kind = .method := by
    have hname : (Signature.mk "transfer(address,uint256)").kind = .method := by decide
    exact hname
  have htext : (transfer parameters).signature.text = "transfer(address,uint256)" := rfl
  rw [row, selector_transfer, hkind, htext]
  decide +kernel

theorem declared_twiceListed : declared twiceListed =
    [transfer "address,uint256", transfer "address to, uint256 value"] := by
  have hlisting : Listing.declarations twiceListed =
      ["transfer(address,uint256)", "broken(", "transfer( address to , uint256 value )"] := by
    decide +kernel
  have hbroken : canonicalize "broken(" = .error (.invalidFormat "broken(" .noClose) := by
    decide +kernel
  have hsignature : signatureOf "transfer".toList ["address".toList, "uint256".toList] =
      ⟨"transfer(address,uint256)"⟩ := by decide +kernel
  have htransfer (raw parameters : String) (hn : normalize raw = .ok ⟨"transfer", parameters⟩)
      (htypes : Normalized.types ⟨"transfer", parameters⟩ = .ok ["address".toList, "uint256".toList]) :
      canonicalize raw = .ok (transfer parameters) := by
    refine canonicalize_eq_ok_iff.2 ⟨_, _, hn, htypes, ?_⟩
    rw [hsignature]
    rfl
  have hbare := htransfer "transfer(address,uint256)" "address,uint256" (by decide +kernel)
    (by decide +kernel)
  have hnamed := htransfer "transfer( address to , uint256 value )" "address to, uint256 value"
    (by decide +kernel) (by decide +kernel)
  unfold declared
  rw [hlisting]
  simp only [List.filterMap_cons, hbare, hbroken, hnamed]
  rfl

/-- The selector of both declarations finds the first one. -/
theorem search_twiceListed :
    search (declared twiceListed) "A9059CBB" = .ok [transfer "address,uint256"] := by
  have hdigest : Digest.parse "A9059CBB" = .error (.invalidHex "A9059CBB" (.length 64 8)) := by
    decide +kernel
  have hparse : Selector.parse "A9059CBB" = .ok ⟨#v[0xa9, 0x05, 0x9c, 0xbb]⟩ := by decide +kernel
  have hfirst : noted [] (transfer "address,uint256") = [transfer "address,uint256"] :=
    noted_of_not_mem List.not_mem_nil
  have hsecond : noted [transfer "address,uint256"] (transfer "address to, uint256 value") =
      [transfer "address,uint256"] := by
    apply noted_of_mem
    rw [digest_transfer _ "address,uint256"]
    exact List.mem_singleton_self _
  unfold search
  rw [hdigest, hparse, declared_twiceListed]
  simp only [Except.map, List.filter_cons, List.filter_nil, selector_transfer, beq_self_eq_true, if_true,
    List.foldl_cons, List.foldl_nil, hfirst, hsecond]

/-! ## Runs -/

/-- The bytes of a source in a directory with given standard input. -/
def Source.readIn (d : Directory) (input : ByteArray) : Source → Except ReadFault ByteArray
  | .standardInput => .ok input
  | .file path => d.read path

/-- The listing can be read under the path. -/
def Reads (d : Directory) (input : ByteArray) (file listing : String) : Prop :=
  ((Source.ofPath file).readIn d input).bind decodeText = .ok listing

/-- The report of a command in a directory with given standard input. -/
def Command.reportIn (d : Directory) (input : ByteArray) (c : Command) : Report :=
  c.program.runIn d input

variable {d : Directory} {input : ByteArray}

theorem decodeText_toUTF8 (text : String) : decodeText text.toUTF8 = .ok text := by
  have hdecoded : String.fromUTF8? text.toUTF8 = some text := by
    unfold String.fromUTF8?
    rw [String.toUTF8_eq_toByteArray, dif_pos text.isValidUTF8]
    rfl
  unfold decodeText
  rw [hdecoded]

/-- Every text can be read from the standard input. -/
theorem reads_standardInput (d : Directory) (listing : String) :
    Reads d listing.toUTF8 "-" listing :=
  decodeText_toUTF8 listing

/-- A program that reads a listing goes on with its text. -/
theorem runIn_onListing (hread : Reads d input file listing) (report : String → Report) :
    (Program.onListing file report).runIn d input = report listing := by
  unfold Program.onListing Program.runIn
  unfold Reads Source.readIn at hread
  cases hsource : Source.ofPath file with
  | standardInput =>
    rw [hsource] at hread
    simp only [hread]
  | file path =>
    rw [hsource] at hread
    simp only [hread]

theorem reportIn_batch (hread : Reads d input file listing) (json : Bool) :
    Command.reportIn d input (.batch file json) = reportBatch listing json :=
  runIn_onListing hread _

theorem reportIn_lookup (hread : Reads d input file listing) (sought : String) (json : Bool) :
    Command.reportIn d input (.lookup sought file json) = reportLookup sought file listing json :=
  runIn_onListing hread _

theorem status_reportBatch_eq_zero_iff (listing : String) (json : Bool) :
    (reportBatch listing json).status = 0 ↔
      ∀ line ∈ Listing.declarations listing, ∃ i, canonicalize line = .ok i := by
  rw [← Outcome.failed_eq_nil_iff]
  unfold reportBatch
  by_cases hnil : (canonicalizeAll (Listing.declarations listing)).failed = []
  · simp [hnil]
  · simp [hnil]

/-- The report of a lookup depends on the declared interfaces only. -/
theorem reportLookup_eq (sought file listing : String) (json : Bool) :
    reportLookup sought file listing json =
      match search (declared listing) sought with
      | .error e => .failure s!"expected a 4-byte selector or 32-byte topic: {e.message}"
      | .ok found =>
        { status := if found.isEmpty then 1 else 0
          output := unlines <|
            if json then [(recordsOf found).pretty]
            else if found.isEmpty then [s!"No signature in {file} matches {sought}"]
            else found.map row } := by
  rw [← find_load]
  rfl

/-- A batch shows what the listing declares. -/
theorem presents_batch (hread : Reads d input file listing) (json : Bool) :
    Presents json (Command.reportIn d input (.batch file json)).output (declared listing) := by
  rw [reportIn_batch hread]
  unfold reportBatch
  simp only [map_accepted_eq_declared]
  exact presents_unlines json fun _ => exists_of_mem_declared

/-- A lookup that finds something succeeds, and shows it. -/
theorem presents_lookup (hread : Reads d input file listing)
    (hfound : search (declared listing) sought = .ok found) (hne : found ≠ []) (json : Bool) :
    (Command.reportIn d input (.lookup sought file json)).status = 0 ∧
      Presents json (Command.reportIn d input (.lookup sought file json)).output found := by
  have hnonempty : found.isEmpty = false := List.isEmpty_eq_false_iff.2 hne
  have hdeclared : ∀ i ∈ found, ∃ raw, canonicalize raw = .ok i :=
    fun i hi => exists_of_mem_declared (mem_of_search hfound i hi)
  rw [reportIn_lookup hread, reportLookup_eq, hfound]
  simp only [hnonempty, Bool.false_eq_true, if_false]
  exact ⟨trivial, presents_unlines json hdeclared⟩

/-- What `batch` and `lookup` report on a listing that can be read under a path. -/
structure Agreement (d : Directory) (input : ByteArray) (file listing : String) : Prop where
  /-- A batch shows what the listing declares. -/
  batch_output : ∀ json,
    Presents json (Command.reportIn d input (.batch file json)).output (declared listing)
  /-- A batch succeeds exactly if no declaration failed. -/
  batch_status : ∀ json, (Command.reportIn d input (.batch file json)).status = 0 ↔
    ∀ line ∈ Listing.declarations listing, ∃ i, canonicalize line = .ok i
  /-- A lookup shows what the search finds in the list that a batch shows. -/
  lookup_output : ∀ sought json found, search (declared listing) sought = .ok found → found ≠ [] →
    Presents json (Command.reportIn d input (.lookup sought file json)).output found
  /-- The records that a batch writes are those of what the listing declares, and of nothing else. -/
  batch_records : ∀ is, ShowsRecords (Command.reportIn d input (.batch file true)).output is →
    List.Forall₂ SameRecord is (declared listing)
  /-- The records that a lookup writes are those of what the search finds, and of nothing else. -/
  lookup_records : ∀ sought found, search (declared listing) sought = .ok found → ∀ is,
    ShowsRecords (Command.reportIn d input (.lookup sought file true)).output is →
      List.Forall₂ SameRecord is found
  /-- If the search finds nothing, a lookup shows no interface, and says so. -/
  lookup_nothing : ∀ sought json, search (declared listing) sought = .ok [] →
    (Command.reportIn d input (.lookup sought file json)).output =
      if json then "[]\n" else s!"No signature in {file} matches {sought}\n"
  /-- A lookup for anything but four or 32 bytes fails, and shows nothing. -/
  lookup_failure : ∀ sought json e, search (declared listing) sought = .error e →
    (Command.reportIn d input (.lookup sought file json)).status = 1 ∧
      (Command.reportIn d input (.lookup sought file json)).output = ""
  /-- A lookup succeeds exactly if it shows an interface. -/
  lookup_status : ∀ sought json,
    (Command.reportIn d input (.lookup sought file json)).status = 0 ↔
      ∃ found, search (declared listing) sought = .ok found ∧ found ≠ []
  /-- A lookup in a listing with the same accepted declarations reports the same. -/
  lookup_accepted : ∀ d' input' other, Reads d' input' file other →
    (Listing.declarations other).filter (fun line => (canonicalize line).isOk) =
      (Listing.declarations listing).filter (fun line => (canonicalize line).isOk) →
    ∀ sought json, Command.reportIn d' input' (.lookup sought file json) =
      Command.reportIn d input (.lookup sought file json)
  /-- For everything that a batch shows, a lookup with either of its printed keys succeeds, and shows an
  interface with its digest. -/
  lookup_shown : ∀ i ∈ declared listing, ∀ printed,
    Hex.Prints i.selector.bytes.toList printed ∨ Hex.Prints i.digest.bytes.toList printed →
    ∀ sought : String, Hex.Retypes printed sought.toList →
      ∃ found, search (declared listing) sought = .ok found ∧ (∃ j ∈ found, j.digest = i.digest) ∧
        ∀ json, (Command.reportIn d input (.lookup sought file json)).status = 0 ∧
          Presents json (Command.reportIn d input (.lookup sought file json)).output found

/-- The batch and the lookup command agree on every listing that can be read. -/
theorem batch_lookup_agreement (hread : Reads d input file listing) :
    Agreement d input file listing := by
  constructor
  case batch_output => exact presents_batch hread
  case batch_status =>
    intro json
    rw [reportIn_batch hread]
    exact status_reportBatch_eq_zero_iff listing json
  case lookup_output =>
    intro sought json found hfound hne
    exact (presents_lookup hread hfound hne json).2
  case batch_records => exact fun is his => his.inj (presents_batch hread true)
  case lookup_records =>
    intro sought found hfound is his
    apply his.inj
    rw [reportIn_lookup hread, reportLookup_eq, hfound]
    exact showsRecords_pretty found
  case lookup_nothing =>
    intro sought json hfound
    rw [reportIn_lookup hread, reportLookup_eq, hfound]
    cases json with
    | false => simp [unlines, toString]
    | true => rfl
  case lookup_failure =>
    intro sought json e hfailed
    rw [reportIn_lookup hread, reportLookup_eq, hfailed]
    exact ⟨rfl, rfl⟩
  case lookup_status =>
    intro sought json
    constructor
    · intro hstatus
      rw [reportIn_lookup hread, reportLookup_eq] at hstatus
      cases hsearch : search (declared listing) sought with
      | error e =>
        rw [hsearch] at hstatus
        contradiction
      | ok found =>
        rw [hsearch] at hstatus
        refine ⟨found, rfl, ?_⟩
        rintro rfl
        contradiction
    · rintro ⟨found, hfound, hne⟩
      exact (presents_lookup hread hfound hne json).1
  case lookup_accepted =>
    intro d' input' other hother haccepted sought json
    have hdeclared : declared other = declared listing := by
      rw [declared_eq_filterMap_filter, haccepted, ← declared_eq_filterMap_filter]
    rw [reportIn_lookup hother, reportIn_lookup hread, reportLookup_eq, reportLookup_eq, hdeclared]
  case lookup_shown =>
    intro i hi printed hprinted sought hsought
    have hsearch : ∃ found, search (declared listing) sought = .ok found ∧
        ∃ j ∈ found, j.digest = i.digest := by
      rcases hprinted with hselector | hdigest
      · rw [hselector.eq] at hsought
        exact search_retyped_selector hi hsought
      · rw [hdigest.eq] at hsought
        exact search_retyped_digest hi hsought
    obtain ⟨found, hfound, hmem⟩ := hsearch
    obtain ⟨j, hj, -⟩ := id hmem
    exact ⟨found, hfound, hmem, presents_lookup hread hfound (List.ne_nil_of_mem hj)⟩

/-- The batch shows both declarations of the transfer, and fails for the third one; a lookup for their
selector shows the first of them. -/
theorem batch_lookup_agreement_twiceListed :
    Reads {} twiceListed.toUTF8 "-" twiceListed ∧
      Agreement {} twiceListed.toUTF8 "-" twiceListed ∧
      (Command.reportIn {} twiceListed.toUTF8 (.batch "-" false)).output =
        "0xa9059cbb  method  transfer(address,uint256)\n" ++
        "0xa9059cbb  method  transfer(address,uint256)\n" ∧
      (Command.reportIn {} twiceListed.toUTF8 (.batch "-" false)).status = 1 ∧
      (Command.reportIn {} twiceListed.toUTF8 (.lookup "A9059CBB" "-" false)).output =
        "0xa9059cbb  method  transfer(address,uint256)\n" ∧
      (Command.reportIn {} twiceListed.toUTF8 (.lookup "A9059CBB" "-" false)).status = 0 := by
  have hread := reads_standardInput {} twiceListed
  have hagree := batch_lookup_agreement hread
  have hfound := (hagree.lookup_status "A9059CBB" false).2
    ⟨_, search_twiceListed, List.cons_ne_nil _ _⟩
  refine ⟨hread, hagree, ?_, ?_, ?_, hfound⟩
  · rw [reportIn_batch hread]
    unfold reportBatch
    simp only [map_accepted_eq_declared, declared_twiceListed, Bool.false_eq_true, if_false,
      List.map_cons, List.map_nil, row_transfer]
    decide
  · rw [reportIn_batch hread]
    decide +kernel
  · rw [reportIn_lookup hread, reportLookup_eq, search_twiceListed]
    simp only [Bool.false_eq_true, if_false, List.isEmpty_cons, List.map_cons, List.map_nil,
      row_transfer]
    decide

end AbiSig.CommandLine
