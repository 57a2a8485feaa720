import Nits.ClientCore.Atomicity
import Nits.ClientCore.Collapse
import Nits.ClientCore.CommentSource
import Nits.ClientCore.DiskReplay
import Nits.ClientCore.ExplorerOrder
import Nits.ClientCore.FileSearch
import Nits.ClientCore.Jumps
import Nits.ClientCore.Placement
import Nits.ClientCore.Shown
import Nits.ClientCore.Threads
import Nits.ClientWeb.Access
import Nits.Logical.Greedy
import Nits.Logical.Program
import Nits.Mcp.Exchange
import Nits.Nitsd.Admission
import Nits.Nitsd.Codec
import Nits.Nitsd.Correspondence
import Nits.Nitsd.Delivered
import Nits.Nitsd.FollowWait
import Nits.Nitsd.Matching
import Nits.Nitsd.Occupancy
import Nits.Nitsd.Polled
import Nits.Nitsd.RemoteCommand
import Nits.Nitsd.RenderStream
import Nits.Nitsd.Watching
import Nits.Protocol.Freshness
import Nits.Protocol.Reference
import Nits.ReviewCore.AnchorIndex
import Nits.ReviewCore.Checked
import Nits.ReviewCore.CommentListing
import Nits.ReviewCore.DeletedReview
import Nits.ReviewCore.DirectoryAtomicity
import Nits.ReviewCore.Invariants
import Nits.ReviewCore.LiveAnchors
import Nits.ReviewCore.MappedRanges
import Nits.ReviewCore.Patch.Exact
import Nits.ReviewCore.Patch.Preview
import Nits.ReviewCore.RawDiff
import Nits.ReviewCore.Reanchoring
import Nits.ReviewCore.Render.Accounting
import Nits.ReviewCore.Render.Cache
import Nits.ReviewCore.Render.File
import Nits.ReviewCore.Render.Gaps
import Nits.ReviewCore.Render.Intraline
import Nits.ReviewCore.Revival
import Nits.ReviewCore.Scopes
import Nits.ReviewCore.Soundness
import Nits.ReviewCore.Store
import Nits.ReviewCore.Store.CommentQuery
import Nits.ReviewCore.SuggestionFile
import Nits.ReviewCore.TargetUpdate
import Nits.ReviewCore.Viewed
import Nits.Ui.DiffSeen
import Nits.Ui.Row
import Nits.Ui.ViewDelivery
import Nits.ReviewCore.Identity
import Nits.Keyboard.Keymap
import Nits.Ui.KeySequence
