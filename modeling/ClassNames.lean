import ClassNames.Text.Cut
import ClassNames.Text.Words
import ClassNames.Text.Bytes
import ClassNames.Text.Hex
import ClassNames.Token
import ClassNames.Table
import ClassNames.Notice
import ClassNames.Slot
import ClassNames.Ledger
import ClassNames.Resolve
import ClassNames.Decimal.Shortest
import ClassNames.Decimal.Positional
import ClassNames.Json.Token
import ClassNames.Json.Node
import ClassNames.Json.Writer
import ClassNames.Contribution
import ClassNames.Path
import ClassNames.Yaml.Place
import ClassNames.Yaml.Scalar.Plain
import ClassNames.Yaml.Scalar.Quoted
import ClassNames.Yaml.Scalar.Block
import ClassNames.Yaml.Token
import ClassNames.Yaml.Property
import ClassNames.Yaml.Layout
import ClassNames.Yaml.Node
import ClassNames.Yaml.Node.Reader
import ClassNames.Config
import ClassNames.Config.Json
import ClassNames.Config.Yaml
import ClassNames.Config.Document
import ClassNames.Session
import ClassNames.Proofs.Reading
import ClassNames.Proofs.Value
import ClassNames.Proofs.Grammar
import ClassNames.Proofs.Ledger
import ClassNames.Proofs.Survival
import ClassNames.Proofs.Blocks
import ClassNames.Proofs.Composition
import ClassNames.Proofs.Closure
import ClassNames.Proofs.Propagation
import ClassNames.Proofs.Acceptance
import ClassNames.Proofs.Listing
import ClassNames.Proofs.Steps
import ClassNames.Proofs.Validity
import ClassNames.Proofs.History
import ClassNames.Proofs.Precedence
import ClassNames.Proofs.Pairwise
import ClassNames.Proofs.Scope
import ClassNames.Proofs.Dump
import ClassNames.Proofs.Nesting
import ClassNames.Proofs.Making
import ClassNames.Proofs.Replacement
import ClassNames.Proofs.Overlay
import ClassNames.Proofs.Plain
import ClassNames.Proofs.Grouping
import ClassNames.Proofs.Cleaning
