import CodeAtlas.Main
import CodeAtlas.Service
import CodeAtlas.Proofs.Comment.Alignment
import CodeAtlas.Proofs.Identity
import CodeAtlas.Proofs.Pattern.Fits
import CodeAtlas.Proofs.Table.RoundTrip
import CodeAtlas.Proofs.Extraction.Step
import CodeAtlas.Proofs.Extraction.Passes
import CodeAtlas.Proofs.Extraction.Distinct
import CodeAtlas.Proofs.Bracket.Nesting
import CodeAtlas.Proofs.Extraction.Calls
import CodeAtlas.Proofs.Comment.Literal
import CodeAtlas.Proofs.Comment.Relexing
import CodeAtlas.Proofs.Graph.Resolution
import CodeAtlas.Proofs.Extraction.Immunity
import CodeAtlas.Proofs.Pattern.Choice
import CodeAtlas.Proofs.Pattern.Words
import CodeAtlas.Proofs.Extraction.Order
import CodeAtlas.Proofs.Extraction.Members
import CodeAtlas.Proofs.Solidity.Layout
import CodeAtlas.Proofs.Solidity.Parents
import CodeAtlas.Proofs.Solidity.RoundTrip
import CodeAtlas.Proofs.Graph.WellFormed
import CodeAtlas.Proofs.Store.BulkLoad
import CodeAtlas.Proofs.Script.Matches
import CodeAtlas.Proofs.Script.RoundTrip
import CodeAtlas.Proofs.Ingestion.Progress
import CodeAtlas.Proofs.Worker.Termination
import CodeAtlas.Proofs.Worker.Coherence
import CodeAtlas.Proofs.Ingestion.Separation
import CodeAtlas.Proofs.Graph.Distinct
import CodeAtlas.Proofs.Progress.Delivery
import CodeAtlas.Proofs.Extraction.Consistent
import CodeAtlas.Proofs.Graph.Containment
import CodeAtlas.Proofs.Graph.Permutation
import CodeAtlas.Proofs.Graph.Repetition
import CodeAtlas.Proofs.Extraction.Coverage
import CodeAtlas.Proofs.Ingestion.Contents
import CodeAtlas.Proofs.Comment.Grammar
import CodeAtlas.Proofs.Graph.Policies
import CodeAtlas.Proofs.Graph.Imports
import CodeAtlas.Proofs.Script.Clauses
import CodeAtlas.Proofs.Script.Heritage
import CodeAtlas.Proofs.Solidity.Heritage
import CodeAtlas.Proofs.Archive.Forms
import CodeAtlas.Proofs.Bracket.Matching
import CodeAtlas.Proofs.Comment.Below
import CodeAtlas.Proofs.Extraction.Stamps
import CodeAtlas.Proofs.Pattern.Below
import CodeAtlas.Proofs.Extraction.Moved
import CodeAtlas.Proofs.Script.Moved
import CodeAtlas.Proofs.Solidity.Moved
import CodeAtlas.Proofs.Extraction.Equivariance
import CodeAtlas.Proofs.Bracket.Splitting
import CodeAtlas.Proofs.Archive.Canonical
