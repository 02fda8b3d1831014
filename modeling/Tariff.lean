import Tariff.Entitlement.Difference
import Tariff.Entitlement.Request
import Tariff.Log.Line
import Tariff.Proofs.Version.Steps
import Tariff.Proofs.Version.FixedPoint
import Tariff.Proofs.Document.Shown
import Tariff.Proofs.Entitlement.Precedence
import Tariff.Proofs.Binary64.ReadBack
import Tariff.Proofs.Json.Numbers
import Tariff.Proofs.Json.Objects
import Tariff.Proofs.Text.Bytes
import Tariff.Proofs.Entitlement.Plain
import Tariff.Proofs.Entitlement.RoundTrip
import Tariff.Proofs.Entitlement.Difference
import Tariff.Proofs.Formula.Derivation
import Tariff.Proofs.Formula.Steps
import Tariff.Proofs.Formula.Unambiguous
import Tariff.Proofs.Formula.Grammar
import Tariff.Proofs.Calendar.Ordinal
import Tariff.Proofs.Pricing.Format
import Tariff.Proofs.Document.Accepted
import Tariff.Proofs.Pricing.Entries
import Tariff.Proofs.Pricing.Offers
import Tariff.Proofs.Pricing.Accepted
import Tariff.Proofs.Pricing.Closed
import Tariff.Proofs.Pricing.Typing
import Tariff.Proofs.Entitlement.Total
import Tariff.Proofs.Formula.Typing
import Tariff.Proofs.Entitlement.Activation
import Tariff.Proofs.Pricing.Soundness
import Tariff.Proofs.Entitlement.Rebinding
import Tariff.Proofs.Entitlement.Requested
import Tariff.Proofs.Json.Lexemes
import Tariff.Proofs.Entitlement.Canonical
import Tariff.Proofs.Document.Layout
import Tariff.Proofs.Pricing.Recognised
import Tariff.Proofs.Calendar.ReadBack
import Tariff.Proofs.Document.Dates
import Tariff.Proofs.Pricing.Loaded
import Tariff.Proofs.Calendar.Stamp
import Tariff.Proofs.Document.Normalized
import Tariff.Proofs.Version.Climb
import Tariff.Proofs.Version.LegacyDate
import Tariff.Proofs.Version.Windows
import Tariff.Proofs.Pricing.CreationDate
import Tariff.Proofs.Pricing.PriceFault
import Tariff.Proofs.Pricing.Reported
import Tariff.Proofs.Formula.Compiled
import Tariff.Proofs.Formula.Variables
import Tariff.Proofs.Formula.Finite
import Tariff.Proofs.Formula.Comparison
import Tariff.Proofs.Formula.Integers
import Tariff.Proofs.Number.Literal
import Tariff.Proofs.Formula.Lexemes
import Tariff.Proofs.Formula.Tokens
import Tariff.Proofs.Formula.Faults
import Tariff.Proofs.Pricing.Phases
import Tariff.Proofs.Pricing.Independent
import Tariff.Proofs.Document.Places
import Tariff.Proofs.Document.Copied
import Tariff.Proofs.Document.Causes
import Tariff.Proofs.Document.Short
import Tariff.Proofs.Formula.Guards
import Tariff.Proofs.Pricing.Explained
import Tariff.Proofs.Version.Carried
import Tariff.Proofs.Log.Blocks
import Tariff.Proofs.Version.Tags
import Tariff.Proofs.Version.Short
import Tariff.Proofs.Formula.Cursor
import Tariff.Proofs.Formula.Descent
import Tariff.Proofs.Formula.Depth
import Tariff.Proofs.Document.Paths
