import PlaceSearch.Api.Request
import PlaceSearch.Api.Response
import PlaceSearch.Api.Router
import PlaceSearch.Cache.Key
import PlaceSearch.Cache.Resolver
import PlaceSearch.Cache.Store
import PlaceSearch.Call.Descriptor
import PlaceSearch.Call.Optimize
import PlaceSearch.Call.Popularity
import PlaceSearch.Database
import PlaceSearch.Dataset.Basic
import PlaceSearch.Dataset.Feature
import PlaceSearch.Dataset.Json
import PlaceSearch.Decimal.Binary
import PlaceSearch.Decimal.Digits
import PlaceSearch.Decimal.Fixed
import PlaceSearch.Decimal.Parse
import PlaceSearch.Decimal.Shortest
import PlaceSearch.Duration
import PlaceSearch.Error
import PlaceSearch.Geo
import PlaceSearch.Http.MediaType
import PlaceSearch.Http.Message
import PlaceSearch.Http.Percent
import PlaceSearch.Http.Url
import PlaceSearch.Json.Decode
import PlaceSearch.Json.Number
import PlaceSearch.Json.Parse
import PlaceSearch.Json.Print
import PlaceSearch.Json.Source
import PlaceSearch.Json.TextList
import PlaceSearch.Json.Value
import PlaceSearch.NormalForm.Compile
import PlaceSearch.NormalForm.Conjunction
import PlaceSearch.NormalForm.Dnf
import PlaceSearch.NormalForm.SymbolTable
import PlaceSearch.Plan.Basic
import PlaceSearch.Plan.Generate
import PlaceSearch.Plan.Row
import PlaceSearch.Plan.Source
import PlaceSearch.Process
import PlaceSearch.Proofs.Cache.Accounts
import PlaceSearch.Proofs.Cache.Identity
import PlaceSearch.Proofs.Cache.Keeps
import PlaceSearch.Proofs.Cache.Key
import PlaceSearch.Proofs.Cache.Ledger
import PlaceSearch.Proofs.Cache.PhraseKey
import PlaceSearch.Proofs.Cache.Phrases
import PlaceSearch.Proofs.Cache.Resolve
import PlaceSearch.Proofs.Cache.Sends
import PlaceSearch.Proofs.Cache.Steady
import PlaceSearch.Proofs.Cache.Stored
import PlaceSearch.Proofs.Call.Coverage
import PlaceSearch.Proofs.Call.Opposed
import PlaceSearch.Proofs.Call.Popularity
import PlaceSearch.Proofs.Call.Sequence
import PlaceSearch.Proofs.Dataset.Algebra
import PlaceSearch.Proofs.Dataset.Ids
import PlaceSearch.Proofs.Decimal.Fixed
import PlaceSearch.Proofs.Decimal.Half
import PlaceSearch.Proofs.NormalForm.Compile
import PlaceSearch.Proofs.NormalForm.Conflict
import PlaceSearch.Proofs.NormalForm.Conjunction
import PlaceSearch.Proofs.NormalForm.Dnf
import PlaceSearch.Proofs.NormalForm.Irredundant
import PlaceSearch.Proofs.NormalForm.Limits
import PlaceSearch.Proofs.NormalForm.Products
import PlaceSearch.Proofs.NormalForm.Reorder
import PlaceSearch.Proofs.NormalForm.Simplify
import PlaceSearch.Proofs.Peg
import PlaceSearch.Proofs.Plan.Below
import PlaceSearch.Proofs.Plan.File
import PlaceSearch.Proofs.Plan.Generate
import PlaceSearch.Proofs.Plan.Level
import PlaceSearch.Proofs.Plan.Mark
import PlaceSearch.Proofs.Plan.Name
import PlaceSearch.Proofs.Plan.Row
import PlaceSearch.Proofs.Plan.Tree
import PlaceSearch.Proofs.Plan.Written
import PlaceSearch.Proofs.Process
import PlaceSearch.Proofs.Process.Cover
import PlaceSearch.Proofs.Process.Log
import PlaceSearch.Proofs.Provider.Execute
import PlaceSearch.Proofs.Provider.Legacy
import PlaceSearch.Proofs.Provider.Listing
import PlaceSearch.Proofs.Provider.Pages
import PlaceSearch.Proofs.Provider.World
import PlaceSearch.Proofs.Query.Characters
import PlaceSearch.Proofs.Query.Grammar
import PlaceSearch.Proofs.Query.Lexeme
import PlaceSearch.Proofs.Query.Outcome
import PlaceSearch.Proofs.Query.Parse
import PlaceSearch.Proofs.Query.Peg
import PlaceSearch.Proofs.Query.Print
import PlaceSearch.Proofs.Query.Project
import PlaceSearch.Proofs.Query.Reading
import PlaceSearch.Proofs.Query.Reduce
import PlaceSearch.Proofs.Query.Render
import PlaceSearch.Proofs.Query.Spells
import PlaceSearch.Proofs.Query.Split
import PlaceSearch.Proofs.Query.Squeeze
import PlaceSearch.Proofs.Query.Standard
import PlaceSearch.Proofs.Query.Terms
import PlaceSearch.Proofs.Search
import PlaceSearch.Proofs.Search.Again
import PlaceSearch.Proofs.Search.Bills
import PlaceSearch.Proofs.Search.Distinct
import PlaceSearch.Proofs.Search.Follow
import PlaceSearch.Proofs.Search.Halves
import PlaceSearch.Proofs.Search.Pages
import PlaceSearch.Proofs.Search.Plan
import PlaceSearch.Proofs.Search.Transparent
import PlaceSearch.Proofs.Search.Whole
import PlaceSearch.Proofs.Service.Apart
import PlaceSearch.Proofs.Service.Bills
import PlaceSearch.Proofs.Service.Complete
import PlaceSearch.Proofs.Service.Events
import PlaceSearch.Proofs.Service.Refused
import PlaceSearch.Proofs.Sorted
import PlaceSearch.Proofs.Text.Find
import PlaceSearch.Proofs.Text.Lower
import PlaceSearch.Proofs.Text.Trim
import PlaceSearch.Proofs.Text.Words
import PlaceSearch.Proofs.Walk.Apart
import PlaceSearch.Proofs.Walk.Calls
import PlaceSearch.Proofs.Walk.Cover
import PlaceSearch.Proofs.Walk.Cursor
import PlaceSearch.Proofs.Walk.Ensure
import PlaceSearch.Proofs.Walk.Extent
import PlaceSearch.Proofs.Walk.Fresh
import PlaceSearch.Proofs.Walk.Itinerary
import PlaceSearch.Proofs.Walk.Pages
import PlaceSearch.Proofs.Walk.Percentage
import PlaceSearch.Proofs.Walk.Progress
import PlaceSearch.Proofs.Walk.Race
import PlaceSearch.Proofs.Walk.Record
import PlaceSearch.Proofs.Walk.ResumeToken
import PlaceSearch.Proofs.Walk.Rows
import PlaceSearch.Proofs.Walk.Step
import PlaceSearch.Proofs.Walk.Stores
import PlaceSearch.Proofs.Walk.Tour
import PlaceSearch.Provider.Execute
import PlaceSearch.Provider.Record
import PlaceSearch.Provider.Request
import PlaceSearch.Provider.Wire
import PlaceSearch.Query.Clause
import PlaceSearch.Query.Expr
import PlaceSearch.Query.Fault
import PlaceSearch.Query.Parser
import PlaceSearch.Query.Split
import PlaceSearch.Query.Term
import PlaceSearch.Query.Token
import PlaceSearch.Search
import PlaceSearch.Service
import PlaceSearch.Settings.Basic
import PlaceSearch.Settings.Layer
import PlaceSearch.Settings.Value
import PlaceSearch.Sorted
import PlaceSearch.Table
import PlaceSearch.Text.Alphanumeric
import PlaceSearch.Text.Blank
import PlaceSearch.Text.Cased
import PlaceSearch.Text.Digest
import PlaceSearch.Text.Digit
import PlaceSearch.Text.Find
import PlaceSearch.Text.Lower
import PlaceSearch.Text.LowerTable
import PlaceSearch.Time
import PlaceSearch.Timestamp
import PlaceSearch.Walk.Progress
import PlaceSearch.Walk.ResumeToken
import PlaceSearch.Walk.Walker
