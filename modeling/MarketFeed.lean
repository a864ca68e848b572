import MarketFeed.Text.Quoted
import MarketFeed.Text.UpperCase
import MarketFeed.Decimal.Printer
import MarketFeed.Decimal.Reader
import MarketFeed.Binary64.Reader
import MarketFeed.Binary64.Shortest
import MarketFeed.Instant.Hour
import MarketFeed.Instant.Printer
import MarketFeed.Instant.Reader
import MarketFeed.Json.Decode
import MarketFeed.Json.Draft
import MarketFeed.Json.Printer
import MarketFeed.Toml.Document
import MarketFeed.Feed.Frame
import MarketFeed.Feed.Snapshot
import MarketFeed.Feed.Subscribe
import MarketFeed.Book.Books
import MarketFeed.Market.Ranking
import MarketFeed.Socket.Connection
import MarketFeed.Listener.Rehearsal
import MarketFeed.Settings.Load
import MarketFeed.Cache.Rehearsal
import MarketFeed.Rest.Rehearsal
import MarketFeed.Rest.Startup
import MarketFeed.Service.Rehearsal
import MarketFeed.Main
import MarketFeed.Proofs.Service.Confluence
import MarketFeed.Proofs.Cache.SingleFlight
import MarketFeed.Proofs.Feed.Classification
import MarketFeed.Proofs.Listener.Rehearsals
import MarketFeed.Proofs.Book.Isolation
import MarketFeed.Proofs.Listener.Truthfulness
import MarketFeed.Proofs.Book.Figures
import MarketFeed.Proofs.Book.Safety
import MarketFeed.Proofs.Text.Digits
import MarketFeed.Proofs.Decimal.Text
import MarketFeed.Proofs.Instant.Calendar
import MarketFeed.Proofs.Instant.Text
import MarketFeed.Proofs.Json.Integers
import MarketFeed.Proofs.Json.Restoring
import MarketFeed.Proofs.Feed.RoundTrip
import MarketFeed.Proofs.Cache.Forgetting
import MarketFeed.Proofs.Market.Ranking
import MarketFeed.Proofs.Rest.Consulting
import MarketFeed.Proofs.Listener.Keepalive
import MarketFeed.Proofs.Book.Newest
import MarketFeed.Proofs.Decimal.Difference
import MarketFeed.Proofs.Book.Signs
import MarketFeed.Proofs.Book.Proper
import MarketFeed.Proofs.Book.Health
import MarketFeed.Proofs.Book.Listing
import MarketFeed.Proofs.Market.Reordering
import MarketFeed.Proofs.Rest.Inquiring
import MarketFeed.Proofs.Rest.Publishing
import MarketFeed.Proofs.Rest.Seeding
import MarketFeed.Proofs.Feed.Listings
import MarketFeed.Proofs.Feed.Subscription
import MarketFeed.Proofs.Instant.Hour
import MarketFeed.Proofs.Listener.Failures
import MarketFeed.Proofs.Settings.Pairs
import MarketFeed.Proofs.Settings.Overriding
import MarketFeed.Proofs.Settings.Narrowing
