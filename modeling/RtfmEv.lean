import RtfmEv.Atak.OrderIndependent
import RtfmEv.Atak.RetriedStore
import RtfmEv.ChannelEcho.Counts
import RtfmEv.ClockDrift
import RtfmEv.CompanionBridge.Confirmations
import RtfmEv.CompanionBridge.FrameReader
import RtfmEv.CompanionFilter
import RtfmEv.Contacts.Promotion
import RtfmEv.Contacts.ReadCursor
import RtfmEv.DbRestore.Safety
import RtfmEv.Discover.Attribution
import RtfmEv.Discover.Floor
import RtfmEv.Discover.RouteBack
import RtfmEv.DmIngest.PrefixClaims
import RtfmEv.Fanout.ExactRuns
import RtfmEv.FleetConfig.SplitAgain
import RtfmEv.FleetDevice.Regions
import RtfmEv.Gateway.DeletedStays
import RtfmEv.Gateway.Keys
import RtfmEv.HostRepeater.AdvertRing
import RtfmEv.HostRepeater.AdvertTokens
import RtfmEv.HostRepeater.Budget
import RtfmEv.HostRepeater.DmcRate
import RtfmEv.HostRepeater.RegionTree
import RtfmEv.HostRepeater.TxSafety
import RtfmEv.HostRepeater.TxSupervision
import RtfmEv.HostRepeater.TxTick
import RtfmEv.MessageSend.OutgoingRow
import RtfmEv.MessageSend.SlotRun
import RtfmEv.Packets.Advert
import RtfmEv.Packets.ContactRoute
import RtfmEv.Packets.PayloadHash
import RtfmEv.PolicyVerdict.Sound
import RtfmEv.RadioSync.Converges
import RtfmEv.RelayHistory.Window
import RtfmEv.SendPacer.Waits
import RtfmEv.SensorPush.LiveGrant
import RtfmEv.Smaz.Bodies
import RtfmEv.Snmp.Walk
import RtfmEv.Spam.CampaignCover
import RtfmEv.Spam.CleanHours
import RtfmEv.Spam.HourNumbers
import RtfmEv.Spam.OpenHop
import RtfmEv.Spam.PlainRule
import RtfmEv.Spam.RuleBudget
import RtfmEv.Spam.SameCampaigns
import RtfmEv.Spam.SharedMaterial
import RtfmEv.Spam.Unblock
import RtfmEv.TempRadio.ScanStops
import RtfmEv.TempRadio.Watched
import RtfmEv.TileCache.OwnSize
import RtfmEv.Unread.MarkUnread
import RtfmEv.Wardrive.Challenges
import RtfmEv.Wardrive.HexGrid
import RtfmEv.Wardrive.Hidden
import RtfmEv.Wardrive.ReportWindow
import RtfmEv.Wardrive.Throttle
import RtfmEv.WardriveRadio.Credit
