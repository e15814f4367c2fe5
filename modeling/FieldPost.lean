import FieldPost.Database.Place
import FieldPost.Failure
import FieldPost.Log
import FieldPost.Migration
import FieldPost.Notice
import FieldPost.Rehearsal
import FieldPost.Settings.Loader
import FieldPost.Settings.Printer
import FieldPost.Upload.Server
import FieldPost.Upload.Spreadsheet
import FieldPost.Watch
import FieldPost.Proofs.Rows
import FieldPost.Proofs.TimeText
import FieldPost.Proofs.Stores
import FieldPost.Proofs.Candidates
import FieldPost.Proofs.Files
import FieldPost.Proofs.Turns
import FieldPost.Proofs.Isolation
import FieldPost.Proofs.History
import FieldPost.Proofs.FileRemoval
import FieldPost.Proofs.Redirections
import FieldPost.Proofs.Exchanges
import FieldPost.Proofs.Delivery
import FieldPost.Proofs.Clearance
import FieldPost.Proofs.LifeCycle
import FieldPost.Proofs.Readable
import FieldPost.Proofs.Truncation
import FieldPost.Proofs.Drafts
import FieldPost.Proofs.FormRecords
import FieldPost.Proofs.Spelling
import FieldPost.Proofs.LeafFields
import FieldPost.Proofs.HostNames
import FieldPost.Proofs.Authorities
import FieldPost.Proofs.Joining
import FieldPost.Proofs.Interruptions
import FieldPost.Proofs.Launches
import FieldPost.Proofs.OptedIn
import FieldPost.Proofs.Holdings
import FieldPost.Proofs.Rounds
import FieldPost.Proofs.Concealment
import FieldPost.Proofs.Authorization
import FieldPost.Proofs.JsonRoundTrip
import FieldPost.Proofs.Shapes
import FieldPost.Proofs.SavedSettings
import FieldPost.Proofs.Messages
import FieldPost.Proofs.QuotedSections
import FieldPost.Proofs.Summaries
import FieldPost.Proofs.Wording
import FieldPost.Proofs.Lookups
import FieldPost.Proofs.LatestForms
import FieldPost.Proofs.Ledgers
import FieldPost.Proofs.Characters
import FieldPost.Proofs.Paths
import FieldPost.Proofs.Listings
import FieldPost.Proofs.Attachments
import FieldPost.Proofs.FormFields
import FieldPost.Proofs.Rereading
import FieldPost.Proofs.Destinations
import FieldPost.Proofs.SheetLinks
import FieldPost.Proofs.SheetRuns
