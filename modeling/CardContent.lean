import CardContent.Card.Basic
import CardContent.Card.Display
import CardContent.Card.Json
import CardContent.Card.Row
import CardContent.Command.Arguments
import CardContent.Command.Help
import CardContent.Command.Report
import CardContent.Command.Request
import CardContent.Command.Run
import CardContent.Command.Session
import CardContent.Compendium
import CardContent.Content.Basic
import CardContent.Content.Event
import CardContent.Content.Load
import CardContent.Content.Source
import CardContent.Csv.Scan
import CardContent.Csv.Table
import CardContent.Deck
import CardContent.Effect.Basic
import CardContent.Effect.Catalog
import CardContent.Effect.Display
import CardContent.Effect.Json
import CardContent.Effect.Parser
import CardContent.Effect.Token
import CardContent.Error
import CardContent.Json.Basic
import CardContent.Json.Pretty
import CardContent.Log.Elapsed
import CardContent.Log.Level
import CardContent.Log.Verbosity
import CardContent.Main
import CardContent.Name.Key
import CardContent.Name.Table
import CardContent.Roster
import CardContent.Text.Blank
import CardContent.Text.Lines
import CardContent.Text.Numeral
import CardContent.Text.Utf8
import CardContent.Proofs.Card.Columns
import CardContent.Proofs.Card.Json
import CardContent.Proofs.Card.Printing
import CardContent.Proofs.Card.Row
import CardContent.Proofs.Card.Table
import CardContent.Proofs.Command.Failing
import CardContent.Proofs.Command.Help
import CardContent.Proofs.Command.Listing
import CardContent.Proofs.Command.Reading
import CardContent.Proofs.Command.Session
import CardContent.Proofs.Command.Verbosity
import CardContent.Proofs.Compendium
import CardContent.Proofs.Content.Account
import CardContent.Proofs.Content.Callers
import CardContent.Proofs.Content.Decode
import CardContent.Proofs.Content.Failure
import CardContent.Proofs.Content.Folder
import CardContent.Proofs.Content.Growth
import CardContent.Proofs.Content.LineEnds
import CardContent.Proofs.Content.Resolved
import CardContent.Proofs.Content.Written
import CardContent.Proofs.Csv.Bytes
import CardContent.Proofs.Csv.Rows
import CardContent.Proofs.Csv.Written
import CardContent.Proofs.Deck
import CardContent.Proofs.Deck.Reading
import CardContent.Proofs.Deck.Total
import CardContent.Proofs.Deck.Written
import CardContent.Proofs.Effect.Call
import CardContent.Proofs.Effect.Cut
import CardContent.Proofs.Effect.Fault
import CardContent.Proofs.Effect.Grammar
import CardContent.Proofs.Effect.Indices
import CardContent.Proofs.Effect.Json
import CardContent.Proofs.Effect.NormalForm
import CardContent.Proofs.Effect.Numbering
import CardContent.Proofs.Effect.Pieces
import CardContent.Proofs.Effect.Printing
import CardContent.Proofs.Effect.Tree
import CardContent.Proofs.Json
import CardContent.Proofs.Json.Pretty
import CardContent.Proofs.Name.Key
import CardContent.Proofs.Name.Spelled
import CardContent.Proofs.Name.Table
import CardContent.Proofs.Name.Trim
import CardContent.Proofs.Name.Words
import CardContent.Proofs.Outcome
import CardContent.Proofs.Roster
import CardContent.Proofs.Text.Lines
import CardContent.Proofs.Text.Numeral
import CardContent.Proofs.Text.Shortest
import CardContent.Proofs.Text.Trim
import CardContent.Proofs.Text.Utf8
import CardContent.Proofs.Text.Words
