import SheetFormula.Binary64
import SheetFormula.Decimal
import SheetFormula.Expr
import SheetFormula.Compile
import SheetFormula.Registry
import SheetFormula.Registry.Build
import SheetFormula.Json.Reader
import SheetFormula.Description
import SheetFormula.CommandLine.Run
import SheetFormula.Main
import SheetFormula.Proofs.Reduction.FirstFault
import SheetFormula.Proofs.Reduction.Success
import SheetFormula.Proofs.Description.Bijection
import SheetFormula.Proofs.Unambiguity.Reading
import SheetFormula.Proofs.Reduction.Events
import SheetFormula.Proofs.Reduction.Limit
import SheetFormula.Proofs.Registry.Build
import SheetFormula.Proofs.Description.Levels
import SheetFormula.Proofs.Description.Loaded
import SheetFormula.Proofs.Equality.Numeric
import SheetFormula.Proofs.Registry.Listing
import SheetFormula.Proofs.CommandLine.Arguments
import SheetFormula.Proofs.CommandLine.Failure
import SheetFormula.Proofs.CommandLine.Agreement
import SheetFormula.Proofs.Description.Written
import SheetFormula.Proofs.Unambiguity.ArrayJoin
import SheetFormula.Proofs.Delimiters.Formula
import SheetFormula.Proofs.Number.ReadBack
import SheetFormula.Proofs.Description.Renaming
import SheetFormula.Proofs.Reduction.BranchAlone
import SheetFormula.Proofs.Reduction.OptionalArgument
import SheetFormula.Proofs.Cell.History
import SheetFormula.Proofs.Joins.Flattening
import SheetFormula.Proofs.Reduction.Level
import SheetFormula.Proofs.Reduction.Counter
