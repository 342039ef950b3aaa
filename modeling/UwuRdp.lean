import UwuRdp.Store.Detection
import UwuRdp.Store.Placeholders
import UwuRdp.Sync.HostKeys
import UwuRdp.Sync.Termination
import UwuRdp.Sync.Opens
import UwuRdp.Sync.Unreadable
import UwuRdp.Store.Delivery
import UwuRdp.Sync.Complete
import UwuRdp.Sync.Sizes
import UwuRdp.Store.Ownership
import UwuRdp.Store.Unchanged
import UwuRdp.Sync.InFlight
import UwuRdp.Proto.Seal
import UwuRdp.Sync.Spaces
import UwuRdp.Sync.Pairing
import UwuRdp.Sync.Copy
import UwuRdp.App.Kept
import UwuRdp.App.Recipients
import UwuRdp.App.SessionRuns
import UwuRdp.Core.Answers
import UwuRdp.Core.DriveRuns
import UwuRdp.Core.Downloads
import UwuRdp.Core.GraphicsOutput
import UwuRdp.App.Certificates
import UwuRdp.App.Canvas
import UwuRdp.Core.Isolation
import UwuRdp.Sync.Limits
import UwuRdp.Sync.Starvation
import UwuRdp.App.Inheritance
import UwuRdp.Core.Echo
import UwuRdp.Core.Offered
import UwuRdp.Core.Overtaken
import UwuRdp.App.InStep
import UwuRdp.Core.Masks
import UwuRdp.Proto.ManifestBytes
import UwuRdp.Core.Strips
import UwuRdp.Store.Shares
import UwuRdp.Store.GroupMoves
import UwuRdp.Store.Portable
import UwuRdp.Core.Refused
import UwuRdp.Core.Listing
import UwuRdp.Core.Recreated
import UwuRdp.Core.Restored
import UwuRdp.Proto.AccountKey
import UwuRdp.Core.Sound
import UwuRdp.Core.Discreet
import UwuRdp.App.DeepLink
import UwuRdp.Sync.Records
import UwuRdp.Core.Fragments
import UwuRdp.Core.Bitmaps
import UwuRdp.App.Rdp
import UwuRdp.Sync.Address
import UwuRdp.App.Harmless
import UwuRdp.App.Updates
import UwuRdp.Store.Resume
import UwuRdp.App.OneAccount
import UwuRdp.App.Listening
import UwuRdp.Sync.Alone
