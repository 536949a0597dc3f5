import NimMarkdown.Category
import NimMarkdown.Command.Arguments
import NimMarkdown.Command.Flag
import NimMarkdown.Command.Log
import NimMarkdown.Command.Plain
import NimMarkdown.Command.Request
import NimMarkdown.Command.Run
import NimMarkdown.Command.Toolkit
import NimMarkdown.FileTree.Basic
import NimMarkdown.FileTree.Canonical
import NimMarkdown.FileTree.Refusal
import NimMarkdown.FileTree.Walk
import NimMarkdown.Files.Host
import NimMarkdown.Files.Read
import NimMarkdown.Files.Write
import NimMarkdown.Line.Comment
import NimMarkdown.Line.Entry
import NimMarkdown.Line.Export
import NimMarkdown.Line.Heading
import NimMarkdown.Line.Import
import NimMarkdown.Line.Keyword
import NimMarkdown.Line.Name
import NimMarkdown.Line.Signature
import NimMarkdown.Main
import NimMarkdown.Markdown.Document
import NimMarkdown.Markdown.Mark
import NimMarkdown.Outline
import NimMarkdown.Path
import NimMarkdown.Proofs.Outline
import NimMarkdown.Proofs.Sound
import NimMarkdown.Scan.Declaration
import NimMarkdown.Scan.Doc
import NimMarkdown.Scan.Examples
import NimMarkdown.Scan.Fence
import NimMarkdown.Scan.Line
import NimMarkdown.Scan.Section
import NimMarkdown.Scan.Source
import NimMarkdown.Scan.State
import NimMarkdown.Scan.TopMatter
import NimMarkdown.Settings.Basic
import NimMarkdown.Settings.Environment
import NimMarkdown.Settings.File
import NimMarkdown.Settings.Options
import NimMarkdown.Settings.Value
import NimMarkdown.Source
import NimMarkdown.SourceFile
import NimMarkdown.Text.Basic
import NimMarkdown.Text.Blank
import NimMarkdown.Text.Control
import NimMarkdown.Text.Digit
import NimMarkdown.Text.Integer
import NimMarkdown.Text.Lines
import NimMarkdown.Text.Lowercase
import NimMarkdown.Text.Printable
import NimMarkdown.Text.Quoted
import NimMarkdown.Text.Ranges
import NimMarkdown.Text.Utf8
import NimMarkdown.Text.Word
import NimMarkdown.Toml.Document
import NimMarkdown.Toml.Lexeme
import NimMarkdown.Toml.Reader
import NimMarkdown.Toml.Table
import NimMarkdown.Proofs.Moves
import NimMarkdown.Proofs.Steps
import NimMarkdown.Proofs.Run
import NimMarkdown.Proofs.FenceLines
import NimMarkdown.Proofs.Fences
import NimMarkdown.Proofs.View
import NimMarkdown.Proofs.Mirror
import NimMarkdown.Proofs.Exported
import NimMarkdown.Proofs.Ledger
import NimMarkdown.Proofs.Readings
import NimMarkdown.Proofs.Trim
import NimMarkdown.Proofs.Faithful
import NimMarkdown.Proofs.Routines
import NimMarkdown.Proofs.DocItems
import NimMarkdown.Proofs.ModuleDoc
import NimMarkdown.Proofs.DeclarationDoc
import NimMarkdown.Proofs.DocAgreement
import NimMarkdown.Proofs.Withheld
import NimMarkdown.Proofs.Growth
import NimMarkdown.Proofs.Frame
import NimMarkdown.Proofs.Headings
import NimMarkdown.Proofs.Outcome
import NimMarkdown.Proofs.Remarks
import NimMarkdown.Proofs.Todos
import NimMarkdown.Proofs.Imports
import NimMarkdown.Proofs.Paths
import NimMarkdown.Proofs.Walks
import NimMarkdown.Proofs.Canonical
import NimMarkdown.Proofs.SourcePath
import NimMarkdown.Proofs.Encoding
import NimMarkdown.Proofs.TreeChanges
import NimMarkdown.Proofs.Writing
import NimMarkdown.Proofs.Decoding
import NimMarkdown.Proofs.FileReading
import NimMarkdown.Proofs.SettingsTable
import NimMarkdown.Proofs.Overrides
import NimMarkdown.Proofs.SettingsSearch
import NimMarkdown.Proofs.Controls
import NimMarkdown.Proofs.Delivery
import NimMarkdown.Proofs.Crashes
import NimMarkdown.Proofs.WellFormed
import NimMarkdown.Proofs.NeatLines
import NimMarkdown.Proofs.DocumentLines
import NimMarkdown.Proofs.GuardLines
import NimMarkdown.Proofs.EffectiveSettings
import NimMarkdown.Proofs.Assembly
import NimMarkdown.Proofs.SectionEntries
import NimMarkdown.Proofs.Captures
import NimMarkdown.Proofs.CodeBlocks
import NimMarkdown.Proofs.FencedCode
import NimMarkdown.Proofs.Written
import NimMarkdown.Proofs.SignatureEnds
import NimMarkdown.Proofs.OmittedParts
import NimMarkdown.Proofs.SectionElements
import NimMarkdown.Proofs.Products
import NimMarkdown.Proofs.Names
import NimMarkdown.Proofs.ExportMarkers
import NimMarkdown.Proofs.EntryGrammar
import NimMarkdown.Proofs.DeclarationHeads
