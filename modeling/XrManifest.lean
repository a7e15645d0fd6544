import XrManifest.CommandLine.Arguments
import XrManifest.CommandLine.Reply
import XrManifest.CommandLine.Request
import XrManifest.Cpp.Layout
import XrManifest.Cpp.Literal
import XrManifest.Cpp.Printing
import XrManifest.Cpp.Syntax
import XrManifest.Cpp.Writer
import XrManifest.Files.Path
import XrManifest.Files.Run
import XrManifest.Files.Tree
import XrManifest.Hand
import XrManifest.Header.Calls
import XrManifest.Header.Generation
import XrManifest.Header.Handles
import XrManifest.Header.Identifiers
import XrManifest.Header.States
import XrManifest.Header.Tables
import XrManifest.Json.Binary64
import XrManifest.Json.Numeral
import XrManifest.Json.Overwriting
import XrManifest.Json.Quoted
import XrManifest.Json.Reading
import XrManifest.Json.Relaxed
import XrManifest.Json.SyntaxError
import XrManifest.Json.Value
import XrManifest.Json.Writing
import XrManifest.Main
import XrManifest.Manifest.Basic
import XrManifest.Manifest.Location
import XrManifest.Manifest.ReadError
import XrManifest.Manifest.Reading
import XrManifest.Manifest.Writing
import XrManifest.Naming.Style
import XrManifest.Naming.Words
import XrManifest.OpenXr
import XrManifest.Plan
import XrManifest.Proofs.BindingViews
import XrManifest.Proofs.BoundPaths
import XrManifest.Proofs.CommandLine.Arguments
import XrManifest.Proofs.CommandLine.ManifestFile
import XrManifest.Proofs.CommandLine.Runs
import XrManifest.Proofs.Cpp.Contents
import XrManifest.Proofs.Cpp.Execution
import XrManifest.Proofs.Cpp.GuardedLines
import XrManifest.Proofs.Cpp.Literals
import XrManifest.Proofs.Cpp.Nesting
import XrManifest.Proofs.Cpp.Parsing
import XrManifest.Proofs.Cpp.Pieces
import XrManifest.Proofs.Cpp.Reading
import XrManifest.Proofs.Cpp.Spelling
import XrManifest.Proofs.Cpp.Strays
import XrManifest.Proofs.Cpp.Words
import XrManifest.Proofs.Cpp.Writing
import XrManifest.Proofs.Derivation
import XrManifest.Proofs.Files.HeaderPath
import XrManifest.Proofs.Files.Writing
import XrManifest.Proofs.Header.Acceptance
import XrManifest.Proofs.Header.ActionCreation
import XrManifest.Proofs.Header.Arrays
import XrManifest.Proofs.Header.Calls
import XrManifest.Proofs.Header.Composition
import XrManifest.Proofs.Header.DistinctNames
import XrManifest.Proofs.Header.FirstFailure
import XrManifest.Proofs.Header.Generation
import XrManifest.Proofs.Header.HandStates
import XrManifest.Proofs.Header.Literals
import XrManifest.Proofs.Header.Nesting
import XrManifest.Proofs.Header.Parsing
import XrManifest.Proofs.Header.PlainCode
import XrManifest.Proofs.Header.PriorityLine
import XrManifest.Proofs.Header.References
import XrManifest.Proofs.Header.SourceLines
import XrManifest.Proofs.Header.StateFetches
import XrManifest.Proofs.Header.Structs
import XrManifest.Proofs.Header.TableEntries
import XrManifest.Proofs.Header.TableNames
import XrManifest.Proofs.Json.Documents
import XrManifest.Proofs.Json.Exchange
import XrManifest.Proofs.Json.Grammar
import XrManifest.Proofs.Json.Nesting
import XrManifest.Proofs.Json.NumberTokens
import XrManifest.Proofs.Json.Overwriting
import XrManifest.Proofs.Json.Parts
import XrManifest.Proofs.Json.Phrases
import XrManifest.Proofs.Json.RelaxedSyntax
import XrManifest.Proofs.Json.Scalars
import XrManifest.Proofs.Json.StrictText
import XrManifest.Proofs.Json.Stripping
import XrManifest.Proofs.Json.TokenReading
import XrManifest.Proofs.Json.Tokens
import XrManifest.Proofs.Json.Writing
import XrManifest.Proofs.Json.WrittenScalars
import XrManifest.Proofs.Manifest.BindingDecoding
import XrManifest.Proofs.Manifest.BindingFaults
import XrManifest.Proofs.Manifest.Decoding
import XrManifest.Proofs.Manifest.Faults
import XrManifest.Proofs.Manifest.LastMatches
import XrManifest.Proofs.Manifest.Layouts
import XrManifest.Proofs.Manifest.ManifestDecoding
import XrManifest.Proofs.Manifest.Positions
import XrManifest.Proofs.Manifest.Priorities
import XrManifest.Proofs.Manifest.Properties
import XrManifest.Proofs.Manifest.RoundTrip
import XrManifest.Proofs.Naming.Characters
import XrManifest.Proofs.Naming.Keys
import XrManifest.Proofs.Naming.Letters
import XrManifest.Proofs.Naming.NormalForm
import XrManifest.Proofs.Naming.Runs
import XrManifest.Proofs.Naming.SameWords
import XrManifest.Proofs.Outcomes
import XrManifest.Proofs.Plan
import XrManifest.Proofs.Text.ByteOrder
import XrManifest.Proofs.Text.Bytes
import XrManifest.Text.Alphanumeric
import XrManifest.Text.Blank
import XrManifest.Text.CaseFolding
import XrManifest.Text.Position
