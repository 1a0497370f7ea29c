import Bifferboard.Nor.Memory
import Bifferboard.Nor.Chip
import Bifferboard.Biffnor.Flashmap
import Bifferboard.Biffnor.Eon
import Bifferboard.Biffnor.Kernel
import Bifferboard.Biffnor.Reading
import Bifferboard.Biffnor.Push
import Bifferboard.Biffnor.Trace
import Bifferboard.Biffnor.Cursor
import Bifferboard.Biffnor.Bounds
import Bifferboard.Biffnor.Report
import Bifferboard.Biffnor.OnNor
import Bifferboard.Biffnor.Chunks
import Bifferboard.Biffnor.Sequential
import Bifferboard.Biffnor.Guard
import Bifferboard.Biffnor.Landing
import Bifferboard.Biffnor.Boot
import Bifferboard.Biffjtag.Rdc
import Bifferboard.Biffjtag.Biffjtag
import Bifferboard.Emulator.En29lv640
import Bifferboard.Emulator.Driver
import Bifferboard.Transition.Reach
import Bifferboard.Upload.Chunks
import Bifferboard.Upload.Packet
import Bifferboard.Upload.System
import Bifferboard.Upload.Biffboot
import Bifferboard.Upload.Safety
import Bifferboard.Image.Mkimg
import Bifferboard.Emulator.Panel
import Bifferboard.Emulator.RdcGpio
import Bifferboard.Ring.Slots
import Bifferboard.R6040.Descriptor
import Bifferboard.R6040.Device
import Bifferboard.R6040.Interrupt
import Bifferboard.R6040.Rings
import Bifferboard.R6040.Receive
import Bifferboard.R6040.Transmit
import Bifferboard.Config.Block
import Bifferboard.Config.Readers
import Bifferboard.Upload.Reliable
import Bifferboard.R6040.Termination
import Bifferboard.R6040.Counters
import Bifferboard.R6040.Effect
import Bifferboard.Biffjtag.Config
import Bifferboard.Biffnor.PlainFile
import Bifferboard.Emulator.Lcd
import Bifferboard.Jtag.Tap
import Bifferboard.Jtag.Xilinx
import Bifferboard.Jtag.Scans
import Bifferboard.Jtag.Assembly
import Bifferboard.Jtag.Equivalence
import Bifferboard.Nor.Window
import Bifferboard.R6040.Widths
import Bifferboard.R6040.Mdio
import Bifferboard.Biffnor.Sectors
import Bifferboard.Biffnor.Polling
import Bifferboard.Emulator.Backing
import Bifferboard.Config.Edits
import Bifferboard.Config.Encoding
import Bifferboard.Numeral.Digits
import Bifferboard.Config.Numbers
import Bifferboard.Emulator.PanelSocket
import Bifferboard.Image.Partitions
import Bifferboard.Upload.Cuts
import Bifferboard.Upload.Peer
import Bifferboard.Emulator.ConfigSpace
import Bifferboard.Image.Cpio
import Bifferboard.Image.CpioRewrite
import Bifferboard.Tftp.Connection
import Bifferboard.Tftp.ReadTransfer
import Bifferboard.Emulator.SectorMap
import Bifferboard.Biffnor.BlankSector
import Bifferboard.Tftp.Completion
import Bifferboard.Tftp.LastAck
import Bifferboard.Heating.Decode
import Bifferboard.Tiny.Initrd
import Bifferboard.Netdev.Driver
import Bifferboard.Netdev.Setup
import Bifferboard.Heating.Answers
import Bifferboard.Netdev.Phy
import Bifferboard.Netdev.Receiving
import Bifferboard.Netdev.System
import Bifferboard.Netdev.Timeout
import Bifferboard.Netdev.Wakeup
import Bifferboard.Biffupgrade.Driver
import Bifferboard.Biffupgrade.Sharing
import Bifferboard.Jtag.Program
import Bifferboard.Tftp.WriteTransfer
import Bifferboard.Biffprop.Loader
import Bifferboard.Netdev.Mode
import Bifferboard.Heating.Messages
