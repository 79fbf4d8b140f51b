import Charis.Memory.OversizedRequests
import Charis.Memory.Copies
import Charis.Exec.ElfSoundness
import Charis.Net.DnsReply
import Charis.Net.TcpBudget
import Charis.Net.HttpComplete
import Charis.Sched.Stacks
import Charis.Syscall.Confinement
import Charis.Memory.Isolation
import Charis.Net.ReceiveRing
import Charis.Net.SourceAddresses
import Charis.Syscall.NodeBlocks
import Charis.Syscall.FileReads
import Charis.Ipc.PipeReuse
import Charis.Ipc.PipeWakeups
import Charis.Graphics.TextPaths
import Charis.Config.RoundTrip
import Charis.Fs.FailedCalls
import Charis.Sched.ReadyList
import Charis.Sched.SignalKill
import Charis.Sched.Sleeping
import Charis.Memory.CopyFailures
import Charis.Fs.Scans
import Charis.Fs.OpenFiles
import Charis.Exec.ProgramStack
import Charis.Net.ArpCache
import Charis.Net.UdpPorts
import Charis.Net.DnsMessages
import Charis.Net.DnsHistories
import Charis.Net.TcpAcks
import Charis.Net.TcpAckNumbers
import Charis.Net.HttpRequests
import Charis.Net.HttpCallbacks
import Charis.Browser.Comments
import Charis.Wm.WindowList
import Charis.Wm.HitTesting
import Charis.Compositor.Surfaces
import Charis.Security.Paths
import Charis.Graphics.Raster
import Charis.Browser.Session
import Charis.Browser.Ampersands
import Charis.Boot.ColourMasks
import Charis.Boot.SurfaceMapping
import Charis.Config.Loading
import Charis.Graphics.Lines
import Charis.Il.Agreement
import Charis.Input.Events
import Charis.Net.AddressText
import Charis.Text.NumberTexts
import Charis.Config.Settings
import Charis.Text.Formats
