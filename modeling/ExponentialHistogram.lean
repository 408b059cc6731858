import ExponentialHistogram.Main
import ExponentialHistogram.Mapping.Reader
import ExponentialHistogram.Generator.Progress
import ExponentialHistogram.Proofs.Binary64.Value
import ExponentialHistogram.Proofs.Threshold.Order
import ExponentialHistogram.Proofs.Threshold.Search
import ExponentialHistogram.Proofs.Threshold.Table
import ExponentialHistogram.Proofs.Threshold.Cache
import ExponentialHistogram.Proofs.Mapping.Start
import ExponentialHistogram.Proofs.Mapping.Exact
import ExponentialHistogram.Proofs.Mapping.Containment
import ExponentialHistogram.Proofs.Mapping.Logarithm
import ExponentialHistogram.Proofs.Mapping.Agreement
import ExponentialHistogram.Proofs.Generator.Table
import ExponentialHistogram.Proofs.Mapping.Inclusion
import ExponentialHistogram.Proofs.Mapping.Resolution
import ExponentialHistogram.Proofs.Threshold.History
import ExponentialHistogram.Proofs.Threshold.Checked
import ExponentialHistogram.Proofs.Threshold.Directed
import ExponentialHistogram.Proofs.Threshold.Verdict
import ExponentialHistogram.Proofs.Mapping.Decision
import ExponentialHistogram.Proofs.Generator.Interleaving
import ExponentialHistogram.Proofs.Mapping.Walk
import ExponentialHistogram.Proofs.Threshold.Halving
import ExponentialHistogram.Proofs.Generator.Entry
import ExponentialHistogram.Proofs.Mapping.Settling
import ExponentialHistogram.Proofs.Binary64.Decomposition
import ExponentialHistogram.Proofs.Mapping.RoundTrip
import ExponentialHistogram.Proofs.Binary64.Words
import ExponentialHistogram.Proofs.Mapping.Totality
import ExponentialHistogram.Proofs.Decimal.Interval
import ExponentialHistogram.Proofs.Decimal.Shortest
import ExponentialHistogram.Proofs.Decimal.Positional
import ExponentialHistogram.Proofs.Text.Scanner
import ExponentialHistogram.Proofs.Generator.Rendering
import ExponentialHistogram.Proofs.Binary64.Accumulation
import ExponentialHistogram.Proofs.Generator.Remaining
import ExponentialHistogram.Proofs.Json.Spelling
import ExponentialHistogram.Proofs.Json.Grammar
import ExponentialHistogram.Proofs.Json.Integer
import ExponentialHistogram.Proofs.Mapping.Reading
import ExponentialHistogram.Proofs.Settings.CommandLine
import ExponentialHistogram.Proofs.Settings.Environment
import ExponentialHistogram.Proofs.Settings.Layers
