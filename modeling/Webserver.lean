import Webserver.Library.Strings
import Webserver.Library.Decimals
import Webserver.Library.Programs
import Webserver.Library.LexicalPaths
import Webserver.Library.SortedMaps
import Webserver.Library.Streams
import Webserver.Library.Loops
import Webserver.Library.Totals
import Webserver.Library.Numerals
import Webserver.Library.Json
import Webserver.Library.Html
import Webserver.Library.Rounds
import Webserver.Library.Regex
import Webserver.Library.RegexShapes
import Webserver.Library.Brackets
import Webserver.Http.Messages
import Webserver.Http.RequestParser
import Webserver.Http.RequestLines
import Webserver.Http.Session
import Webserver.Http.StaleBuffer
import Webserver.Http.Malformed
import Webserver.Storage.Disk
import Webserver.Storage.FileSystem
import Webserver.Storage.Effects
import Webserver.Storage.Writes
import Webserver.Storage.NamedFiles
import Webserver.Storage.Listings
import Webserver.Handlers.Crud
import Webserver.Handlers.CrudRequests
import Webserver.Handlers.CrudRuns
import Webserver.Handlers.CrudFreshness
import Webserver.Handlers.NewIds
import Webserver.Handlers.CrudAnswers
import Webserver.Handlers.CrudConcurrency
import Webserver.Handlers.CrudWrites
import Webserver.Handlers.CrudListing
import Webserver.Handlers.Markdown
import Webserver.Handlers.Indexing
import Webserver.Handlers.MarkdownPages
import Webserver.Handlers.MarkdownActions
import Webserver.Handlers.MarkdownPosts
import Webserver.Handlers.MarkdownCreate
import Webserver.Handlers.MarkdownThrows
import Webserver.Handlers.MarkdownRuns
import Webserver.Handlers.MarkdownRows
import Webserver.Handlers.MarkdownListing
import Webserver.Handlers.MarkdownEdit
import Webserver.Handlers.MarkdownSave
import Webserver.Handlers.MarkdownResaves
import Webserver.Handlers.Static
import Webserver.Config.Syntax
import Webserver.Config.Tokenizer
import Webserver.Config.Parser
import Webserver.Config.Grammar
import Webserver.Config.ParserRuns
import Webserver.Config.TreeWords
import Webserver.Config.Flatten
import Webserver.Config.Printer
import Webserver.Config.RoundTrip
import Webserver.Config.Escapes
import Webserver.Config.FinalNewline
import Webserver.Config.LineEnds
import Webserver.Config.TokenStream
import Webserver.Config.ExtractPort
import Webserver.Config.Comments
import Webserver.Config.SkippedComments
import Webserver.Config.CommentedPorts
import Webserver.Config.ExtractLocation
import Webserver.Config.LocationSteps
import Webserver.Config.LocationTurns
import Webserver.Config.LocationHangs
import Webserver.Config.CommentedLocations
import Webserver.Config.Lexemes
import Webserver.Config.LocationWords
import Webserver.Config.LocationReading
import Webserver.Config.PortStatements
import Webserver.Routing.Dispatcher
import Webserver.Routing.Confinement
import Webserver.Routing.Roots
import Webserver.Routing.Lookup
import Webserver.Routing.RouteKeys
import Webserver.Routing.Canonical
import Webserver.Routing.Deletions
import Webserver.Routing.EmptyStrings
import Webserver.Markdown.Tokens
import Webserver.Markdown.Lines
import Webserver.Markdown.InlineHtml
import Webserver.Markdown.Lists
import Webserver.Markdown.Blocks
import Webserver.Markdown.Emphasis
import Webserver.Markdown.Spans
import Webserver.Markdown.Document
import Webserver.Markdown.EmphasisSearch
import Webserver.Markdown.EmphasisNesting
import Webserver.Markdown.EmphasisReading
import Webserver.Markdown.EmphasisEnding
import Webserver.Markdown.ListRuns
import Webserver.Markdown.BlockRuns
import Webserver.Markdown.Absence
import Webserver.Markdown.TameTokens
import Webserver.Markdown.SpanAbsence
import Webserver.Markdown.LineEndings
import Webserver.Markdown.Prose
import Webserver.Markdown.Verbatim
import Webserver.Markdown.OwnTags
import Webserver.Markdown.SpanEnding
import Webserver.Storage.Subtrees
import Webserver.Library.Interleavings
import Webserver.Routing.SafeRequests
import Webserver.Routing.Separation
import Webserver.Serving.Server
import Webserver.Serving.ServerRuns
import Webserver.Serving.ServerStorage
import Webserver.Markdown.BlockEnding
