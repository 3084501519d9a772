import OneDriveDavfs.Library.Forest
import OneDriveDavfs.Index.Removal
import OneDriveDavfs.Index.Invariant
import OneDriveDavfs.Index.Paths
import OneDriveDavfs.Index.Runs
import OneDriveDavfs.Index.Tree
import OneDriveDavfs.Index.Delta
import OneDriveDavfs.Library.Wire
import OneDriveDavfs.Snapshot.Format
import OneDriveDavfs.Snapshot.Layout
import OneDriveDavfs.Snapshot.RoundTrip
import OneDriveDavfs.Library.Json
import OneDriveDavfs.Snapshot.MetaText
import OneDriveDavfs.Library.BinarySearch
import OneDriveDavfs.StateFile
import OneDriveDavfs.Snapshot.Lookup
import OneDriveDavfs.Snapshot.Store
import OneDriveDavfs.Graph.Delta
import OneDriveDavfs.Sync.Tick
import OneDriveDavfs.Dav.WriteThrough
import OneDriveDavfs.Sync.Loop
import OneDriveDavfs.Sync.Run
import OneDriveDavfs.Sync.Cursor
import OneDriveDavfs.Sync.Shadow
import OneDriveDavfs.Snapshot.Part
import OneDriveDavfs.Sync.Crawl
import OneDriveDavfs.Dav.Listing
import OneDriveDavfs.Sync.Listing
import OneDriveDavfs.Index.Graft
import OneDriveDavfs.Host.Admission
import OneDriveDavfs.Library.Effect
import OneDriveDavfs.Library.Percent
import OneDriveDavfs.Http.Client
import OneDriveDavfs.Auth.Token
import OneDriveDavfs.Library.JsonPrefix
import OneDriveDavfs.Auth.TokenText
import OneDriveDavfs.Graph.Item
import OneDriveDavfs.Xml
import OneDriveDavfs.Graph.Requests
import OneDriveDavfs.Graph.Credentials
import OneDriveDavfs.Dav.RequestPath
import OneDriveDavfs.Dav.Href
import OneDriveDavfs.Dav.Propfind
import OneDriveDavfs.Snapshot.Rows
import OneDriveDavfs.Dav.Placeholders
import OneDriveDavfs.Dav.ReadYourWrites
import OneDriveDavfs.Index.Entries
import OneDriveDavfs.Sync.LocalWrites
import OneDriveDavfs.Index.Climb
import OneDriveDavfs.Dav.Moves
import OneDriveDavfs.Library.Fields
import OneDriveDavfs.Snapshot.Bounds
import OneDriveDavfs.Graph.Addresses
import OneDriveDavfs.Api.Tree
import OneDriveDavfs.Dav.BasicAuth
import OneDriveDavfs.Dav.Destination
import OneDriveDavfs.Graph.UploadSession
import OneDriveDavfs.Library.Calendar
import OneDriveDavfs.Library.Machine
import OneDriveDavfs.Xml.HttpDate
import OneDriveDavfs.Graph.Timestamps
import OneDriveDavfs.Library.Loop
import OneDriveDavfs.Graph.Children
import OneDriveDavfs.StateTransfer
import OneDriveDavfs.Library.AddressBlocks
import OneDriveDavfs.Host.PublicAddresses
import OneDriveDavfs.Library.Markup
import OneDriveDavfs.Xml.Multistatus
import OneDriveDavfs.Library.Ranking
import OneDriveDavfs.Api.Search
import OneDriveDavfs.Library.Passage
import OneDriveDavfs.Graph.Frame
import OneDriveDavfs.Graph.Orders
import OneDriveDavfs.Guest.Surroundings
import OneDriveDavfs.Guest.Config
import OneDriveDavfs.Guest.Tick
import OneDriveDavfs.Dav.Verbs
import OneDriveDavfs.Api.Answers
import OneDriveDavfs.Http.Transfer
import OneDriveDavfs.Guest.Requests
import OneDriveDavfs.Sync.Links
import OneDriveDavfs.Guest.Sessions
import OneDriveDavfs.Guest.Access
import OneDriveDavfs.Guest.Uploads
import OneDriveDavfs.Host.Outbound
import OneDriveDavfs.Api.Agreement
import OneDriveDavfs.Dav.Bodies
import OneDriveDavfs.Sync.Replies
import OneDriveDavfs.Guest.Crawl
import OneDriveDavfs.Guest.Acknowledged
import OneDriveDavfs.Guest.Overview
import OneDriveDavfs.Guest.Budget
import OneDriveDavfs.Guest.Following
