import SessionStore.Id.Survey
import SessionStore.Logging.Filter
import SessionStore.Proofs.Store.Contract
import SessionStore.Proofs.Store.Naming
import SessionStore.Proofs.Store.Sweeping
import SessionStore.Proofs.Engine.Expiry
import SessionStore.Proofs.Engine.Staleness
import SessionStore.Properties.Document
import SessionStore.Properties.Variables
import SessionStore.Scenario.Run
import SessionStore.Proofs.Text.Utf8
import SessionStore.Proofs.Json.Fields
import SessionStore.Proofs.Json.Numerals
import SessionStore.Proofs.Json.Lexing
import SessionStore.Proofs.Json.Reading
import SessionStore.Proofs.Store.Found
import SessionStore.Proofs.Session.Encoding
import SessionStore.Proofs.Engine.Loading
import SessionStore.Proofs.Json.Accepted
import SessionStore.Proofs.Session.RoundTrip
import SessionStore.Proofs.Engine.Phases
import SessionStore.Proofs.Engine.Contention
import SessionStore.Proofs.Engine.Alive
import SessionStore.Proofs.Engine.Lifecycle
import SessionStore.Proofs.Engine.Timetable
import SessionStore.Proofs.Engine.Failures
import SessionStore.Proofs.Store.Separation
import SessionStore.Proofs.Store.Foreign
import SessionStore.Proofs.Engine.Disabled
import SessionStore.Proofs.Session.Torn
import SessionStore.Proofs.Properties.Alike
import SessionStore.Proofs.Session.Edits
import SessionStore.Proofs.Store.Overdue
import SessionStore.Proofs.Store.Replacing
import SessionStore.Proofs.Engine.Visits
import SessionStore.Proofs.Store.Presence
import SessionStore.Proofs.Store.Preparation
import SessionStore.Proofs.Properties.Usable
import SessionStore.Proofs.Store.Texts
import SessionStore.Proofs.Text.Lowering
import SessionStore.Proofs.Properties.Keys
import SessionStore.Proofs.Logging.Words
