import SchemaHighlighter.Engine.Grammar
import SchemaHighlighter.Engine.Playback
import SchemaHighlighter.Engine.Recording
import SchemaHighlighter.Engine.Scope
import SchemaHighlighter.Highlight.Delta
import SchemaHighlighter.Highlight.Highlighter
import SchemaHighlighter.Highlight.Reference
import SchemaHighlighter.Loading.ModuleFile
import SchemaHighlighter.Proofs.Highlight.Cover
import SchemaHighlighter.Proofs.Highlight.Windowing
import SchemaHighlighter.Record.Meaning
import SchemaHighlighter.Server.Session
import SchemaHighlighter.Settings.OfJson
import SchemaHighlighter.Proofs.Highlight.Retries
import SchemaHighlighter.Proofs.Highlight.Overlap
import SchemaHighlighter.Proofs.Engine.Release
import SchemaHighlighter.Proofs.Highlight.Release
import SchemaHighlighter.Proofs.Engine.Capacity
import SchemaHighlighter.Proofs.Engine.Terminator
import SchemaHighlighter.Proofs.Highlight.Capacity
import SchemaHighlighter.Proofs.Highlight.Room
import SchemaHighlighter.Proofs.Highlight.Extension
import SchemaHighlighter.Proofs.Highlight.Composition
import SchemaHighlighter.Proofs.Engine.Words
import SchemaHighlighter.Proofs.Highlight.Words
import SchemaHighlighter.Proofs.Record.Agreement
import SchemaHighlighter.Proofs.Engine.Oblivious
import SchemaHighlighter.Proofs.Highlight.Independence
import SchemaHighlighter.Proofs.Engine.Transport
import SchemaHighlighter.Proofs.Highlight.Cancellation
import SchemaHighlighter.Proofs.Server.Launches
import SchemaHighlighter.Proofs.Loading.Once
import SchemaHighlighter.Proofs.Record.Unguarded
import SchemaHighlighter.Proofs.Record.WellFormed
import SchemaHighlighter.Proofs.Record.Acceptance
import SchemaHighlighter.Proofs.Engine.Survival
import SchemaHighlighter.Proofs.Engine.Scopes
import SchemaHighlighter.Proofs.Engine.Layout
import SchemaHighlighter.Text.LineIndex
import SchemaHighlighter.Proofs.Text.LineIndex
import SchemaHighlighter.Proofs.Highlight.Positions
import SchemaHighlighter.Proofs.Settings.Resolution
import SchemaHighlighter.Proofs.Text.LastWord
import SchemaHighlighter.Proofs.Highlight.Walking
import SchemaHighlighter.Proofs.Memory.History
