import Nao.Lib.Loop
import Nao.Lib.Copy
import Nao.Lib.Mem
import Nao.Lib.ByteFile
import Nao.Lib.Bits
import Nao.Lib.Lts
import Nao.Lib.Linked
import Nao.Lib.BlockList
import Nao.Lib.FirstFit
import Nao.Lib.ByteRing
import Nao.Lib.Settle
import Nao.Lib.Segments
import Nao.Lib.Search
import Nao.Lib.History
import Nao.Lib.CString
import Nao.Lib.Traced
import Nao.Lib.Rows
import Nao.Lib.Lines
import Nao.Lib.Writes
import Nao.Lib.Machine
import Nao.Lib.Ring
import Nao.Lib.Timeline
import Nao.Mm.Definitions
import Nao.Mm.Arena
import Nao.Mm.Chain
import Nao.Mm.Refinement
import Nao.Mm.Safety
import Nao.Mm.Laws
import Nao.Mm.Alignment
import Nao.Rtl8139.Definitions
import Nao.Rtl8139.Receive
import Nao.Rtl8139.Transmit
import Nao.Disk.Definitions
import Nao.Disk.Commands
import Nao.Disk.Refinement
import Nao.FatFs.Volume
import Nao.Fat.Definitions
import Nao.Fat.Window
import Nao.Fat.Entries
import Nao.Fat.Chains
import Nao.Fat.Settled
import Nao.Fat.Files
import Nao.Fat.Contents
import Nao.Fat.Reading
import Nao.Fat.Writing
import Nao.Fat.Seeking
import Nao.Fat.Sync
import Nao.Fat.Store
import Nao.Fat.Sessions
import Nao.FatFs.Calls
import Nao.Explorer.Definitions
import Nao.Explorer.Paths
import Nao.Explorer.Frame
import Nao.Explorer.Dialogs
import Nao.Explorer.Delete
import Nao.Explorer.DeleteItem
import Nao.Explorer.Buffers
import Nao.Explorer.Listing
import Nao.NaoEdit.Definitions
import Nao.NaoEdit.Files
import Nao.Ani.Definitions
import Nao.Ani.Events
import Nao.Ani.Progress
import Nao.Ani.Bounds
import Nao.Ani.Playback
import Nao.Kernel.Strings
import Nao.Kernel.Format
import Nao.Kernel.Snprintf
import Nao.Kernel.Numbers
import Nao.Kernel.Compare
import Nao.Kernel.Memory
import Nao.Theme.Definitions
import Nao.Theme.Lines
import Nao.Theme.RoundTrip
import Nao.Theme.Range
import Nao.HttpClient.Definitions
import Nao.HttpClient.Request
import Nao.NaoEdit.Window
import Nao.NaoEdit.Operations
import Nao.Shell.Definitions
import Nao.Shell.BusyCursor
import Nao.NaoBrowse.Definitions
import Nao.NaoBrowse.Requests
import Nao.NaoBrowse.PageBuffer
import Nao.NaoBrowse.Navigation
import Nao.NaoBrowse.Console
import Nao.NaoBrowse.Rendering
import Nao.Lwip.Pbuf
import Nao.HttpClient.Response
import Nao.HttpClient.Parsing
import Nao.HttpClient.Overruns
import Nao.HttpClient.Segments
import Nao.HttpClient.Callbacks
import Nao.NaoBrowse.Connections
import Nao.NaoBrowse.Pages
import Nao.Idt.Definitions
import Nao.Idt.Keyboard
import Nao.Idt.Mouse
import Nao.Idt.Displacement
import Nao.Idt.Shift
import Nao.CursorLoader.Definitions
import Nao.CursorLoader.Agreement
import Nao.CursorLoader.Encoding
import Nao.CursorLoader.Bounds
import Nao.NetMonitor.Definitions
import Nao.NetMonitor.Protocol
import Nao.NetMonitor.Verdict
import Nao.Images.Definitions
import Nao.Images.Arena
import Nao.NaoView.Definitions
import Nao.NaoView.Commands
import Nao.Images.Orientation
import Nao.Images.Loaders
import Nao.Graphics.Definitions
import Nao.Graphics.Geometry
import Nao.Graphics.BootScreen
import Nao.Gui.Definitions
import Nao.Gui.Clipping
