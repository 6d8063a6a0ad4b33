import SlimStarter.Lib.Prog
import SlimStarter.Lib.Composed
import SlimStarter.Lib.Pool
import SlimStarter.Lib.Monitor
import SlimStarter.Lib.Trace
import SlimStarter.Lib.Interrupt
import SlimStarter.Lib.Rely
import SlimStarter.Lib.Throws
import SlimStarter.Lib.Growth
import SlimStarter.Lib.Ending
import SlimStarter.Lib.Footprint
import SlimStarter.Lib.Purge
import SlimStarter.Lib.Outcome
import SlimStarter.Lib.Yields
import SlimStarter.Lib.Issued
import SlimStarter.Lib.Table
import SlimStarter.Lib.Paging
import SlimStarter.Lib.Split
import SlimStarter.Lib.Path
import SlimStarter.Lib.Like
import SlimStarter.Lib.Utf8
import SlimStarter.Lib.Digits
import SlimStarter.Lib.Register
import SlimStarter.Php
import SlimStarter.DotEnv
import SlimStarter.Exceptions
import SlimStarter.Auth.Model
import SlimStarter.Auth.Service
import SlimStarter.Auth.Spec
import SlimStarter.Auth.History
import SlimStarter.Auth.Families
import SlimStarter.Auth.Standing
import SlimStarter.Auth.Race
import SlimStarter.Auth.Rotation
import SlimStarter.Auth.Revocation
import SlimStarter.Auth.Atomicity
import SlimStarter.Auth.Isolation
import SlimStarter.Auth.Accounts
import SlimStarter.Auth.Registering
import SlimStarter.Auth.Expiry
import SlimStarter.Redis
import SlimStarter.Csv
import SlimStarter.CsvRoundTrip
import SlimStarter.CsvTexts
import SlimStarter.CsvMark
import SlimStarter.Customer.Model
import SlimStarter.Customer.Strict
import SlimStarter.Customer.Cache
import SlimStarter.Customer.Service
import SlimStarter.Customer.Import
import SlimStarter.Customer.Phases
import SlimStarter.Customer.Generation
import SlimStarter.Customer.Invalidation
import SlimStarter.Customer.Keys
import SlimStarter.Customer.Unique
import SlimStarter.Customer.Avatar
import SlimStarter.Customer.Uploads
import SlimStarter.Customer.Supplied
import SlimStarter.Customer.AvatarKept
import SlimStarter.Customer.AvatarLeaked
import SlimStarter.Customer.Feed
import SlimStarter.Customer.Accounting
import SlimStarter.Customer.BadRows
import SlimStarter.Customer.Chunks
import SlimStarter.Customer.Retry
import SlimStarter.Customer.Prefix
import SlimStarter.Customer.Request
import SlimStarter.Customer.Export
import SlimStarter.Customer.Streamed
import SlimStarter.Customer.Progress
import SlimStarter.Customer.Reimport
import SlimStarter.Customer.Pages
import SlimStarter.Customer.Statistics
import SlimStarter.Customer.Listing
import SlimStarter.Customer.Instance
import SlimStarter.Customer.Flaky
import SlimStarter.Customer.FailOpen
import SlimStarter.Customer.Directory
import SlimStarter.Sql
import SlimStarter.Search
import SlimStarter.Keyword
import SlimStarter.Http.Message
import SlimStarter.Http.App
import SlimStarter.Http.Cookie
import SlimStarter.Http.Header
import SlimStarter.Http.Traversal
import SlimStarter.Http.Privilege
import SlimStarter.Http.Gate
import SlimStarter.Http.Footprint
import SlimStarter.Http.Access
import SlimStarter.Http.Directory
import SlimStarter.Http.Halves
import SlimStarter.Http.Answered
import SlimStarter.Http.Lifecycle
import SlimStarter.Http.Queue
import SlimStarter.Http.Commits
import SlimStarter.Http.Token
import SlimStarter.Http.Exposure
import SlimStarter.Http.Passwords
import SlimStarter.Http.Rejected
import SlimStarter.Http.Pagination
import SlimStarter.Http.ExportBound
import SlimStarter.Http.ByteOrderMark
import SlimStarter.Lib.Template
