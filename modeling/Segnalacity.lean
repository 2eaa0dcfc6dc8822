import Segnalacity.Lib.StateProg
import Segnalacity.Lib.CStr
import Segnalacity.Lib.Store
import Segnalacity.Lib.Lines
import Segnalacity.Lib.Decimal
import Segnalacity.Lib.Buckets
import Segnalacity.Lib.Sql
import Segnalacity.Lib.Scan
import Segnalacity.Lib.Framing
import Segnalacity.Lib.Window
import Segnalacity.Lib.Dll
import Segnalacity.HashTable.Prime
import Segnalacity.HashTable.Table
import Segnalacity.HashTable.Map
import Segnalacity.Lib.Blocks
import Segnalacity.HashTable.Heap
import Segnalacity.HashTable.Layout
import Segnalacity.HashTable.Walks
import Segnalacity.HashTable.Refinement
import Segnalacity.Http.Parser
import Segnalacity.Http.Utils
import Segnalacity.Http.Escape
import Segnalacity.Http.Form
import Segnalacity.Http.Cookie
import Segnalacity.Http.Render
import Segnalacity.Http.Frame
import Segnalacity.Http.Grammar
import Segnalacity.Connection
import Segnalacity.Segmentation
import Segnalacity.Pipelining
import Segnalacity.Server.Callbacks
import Segnalacity.Server.Effects
import Segnalacity.Server.Steps
import Segnalacity.Server.Memory
import Segnalacity.Server.Registry
import Segnalacity.Server.Progress
import Segnalacity.Server.Exchange
import Segnalacity.Server.Linearization
import Segnalacity.Server.Shutdown
import Segnalacity.World
import Segnalacity.Database
import Segnalacity.User
import Segnalacity.Session
import Segnalacity.RateLimiter
import Segnalacity.RateLimits
import Segnalacity.RateRecycling
import Segnalacity.Report
import Segnalacity.Lifecycle
import Segnalacity.Ownership
import Segnalacity.Geo
import Segnalacity.GeoLoad
import Segnalacity.Template
import Segnalacity.TemplateParse
import Segnalacity.Routes.Helpers
import Segnalacity.Routes.Pages
import Segnalacity.Routes.Api
import Segnalacity.Routes.Handler
import Segnalacity.SessionContract
import Segnalacity.Logout
import Segnalacity.Routes.Endpoints
import Segnalacity.Routes.Effects
import Segnalacity.Lists
import Segnalacity.Authentication
import Segnalacity.Authorization
import Segnalacity.Registration
import Segnalacity.ListedCities
import Segnalacity.AllOrNothing
import Segnalacity.CacheTransparency
import Segnalacity.PartialLists
import Segnalacity.Partition
import Segnalacity.Completeness
import Segnalacity.ResponseBuffer
import Segnalacity.Geometry
import Segnalacity.Passwords
import Segnalacity.RegisterLogin
import Segnalacity.SubmittedText
import Segnalacity.Lib.LittleEndian
import Segnalacity.Lib.Memory
import Segnalacity.Lib.Linked
import Segnalacity.HashTable.Snapshot
import Segnalacity.Slab
import Segnalacity.SlabPool
import Segnalacity.SlabSoundness
import Segnalacity.SlabRetention
import Segnalacity.Server.ContextPool
import Segnalacity.ReportCache
import Segnalacity.CacheStructure
import Segnalacity.Markup
import Segnalacity.HtmlPages
import Segnalacity.Responses
import Segnalacity.Lib.WhileLoop
import Segnalacity.HashTable.Growth
import Segnalacity.TemplatePasses
import Segnalacity.Lib.Mixing
import Segnalacity.HashKey
import Segnalacity.Lib.Codewords
import Segnalacity.TextValidity
