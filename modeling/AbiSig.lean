import AbiSig.Batch
import AbiSig.Chunks
import AbiSig.CommandLine.Directory
import AbiSig.CommandLine.Invocation
import AbiSig.CommandLine.Options
import AbiSig.CommandLine.Program
import AbiSig.CommandLine.Report
import AbiSig.Declaration.ArgumentList
import AbiSig.Declaration.Normalized
import AbiSig.Declaration.Parameters
import AbiSig.Declaration.Spacing
import AbiSig.Digest
import AbiSig.Error
import AbiSig.Hex
import AbiSig.Interface
import AbiSig.Json
import AbiSig.Keccak.Permutation
import AbiSig.Keccak.Sponge
import AbiSig.Listing
import AbiSig.LogSettings
import AbiSig.Main
import AbiSig.Nesting
import AbiSig.Proofs.Text.Rewriting
import AbiSig.Registry
import AbiSig.Signature
import AbiSig.Text.Blank
import AbiSig.Text.Column
import AbiSig.Text.Lead
import AbiSig.Text.Lines
import AbiSig.Text.Quoted
import AbiSig.Text.Replacement
import AbiSig.Text.Uppercase
import AbiSig.Text.Utf8
import AbiSig.Proofs.Declaration.Spacing
import AbiSig.Proofs.Nesting.Balance
import AbiSig.Proofs.Declaration.ArgumentList
import AbiSig.Proofs.Text.Trimming
import AbiSig.Proofs.Declaration.Header
import AbiSig.Proofs.Declaration.Normalized
import AbiSig.Proofs.Declaration.Pieces
import AbiSig.Proofs.Declaration.TypeOf
import AbiSig.Proofs.Nesting.Imbalance
import AbiSig.Proofs.Declaration.Verdict
import AbiSig.Proofs.Declaration.Types
import AbiSig.Proofs.Declaration.Indexed
import AbiSig.Proofs.Declaration.Parameters
import AbiSig.Proofs.Interface.Language
import AbiSig.Proofs.Interface.FixedPoints
import AbiSig.Proofs.Grammar.Spacing
import AbiSig.Proofs.Grammar.Types
import AbiSig.Proofs.Grammar.Indexed
import AbiSig.Proofs.Interface.Grammar
import AbiSig.Proofs.Declaration.Layout
import AbiSig.Proofs.Registry.Indices
import AbiSig.Proofs.Registry.Listed
import AbiSig.Proofs.Interface.SignatureTypes
import AbiSig.Proofs.Batch.Outcome
import AbiSig.Proofs.Interface.Suffix
import AbiSig.Proofs.CommandLine.Lookup
import AbiSig.Proofs.Declaration.CommaSpacing
import AbiSig.Proofs.Interface.CommaSpacing
import AbiSig.Proofs.Listing.Joined
import AbiSig.Proofs.Registry.Loading
import AbiSig.Proofs.Declaration.Offsets
import AbiSig.Proofs.Declaration.Written
import AbiSig.Proofs.Interface.Failures
import AbiSig.Proofs.Interface.NormalForm
import AbiSig.Proofs.Hex.Language
import AbiSig.Proofs.Interface.Blanks
import AbiSig.Proofs.Listing.Sifted
import AbiSig.Proofs.Text.Fields
import AbiSig.Proofs.CommandLine.Batch
import AbiSig.Proofs.Declaration.SpacingRuns
import AbiSig.Proofs.Declaration.IndexedWords
import AbiSig.Proofs.Signature.Assembled
import AbiSig.Proofs.Declaration.ClosingOffset
