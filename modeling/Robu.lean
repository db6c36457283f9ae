import Robu.Kernel.WakeInbox
import Robu.Kernel.Context
import Robu.Kernel.Authority
import Robu.Kernel.Blocking
import Robu.Kernel.Notify
import Robu.Ext2.ReadOnly
import Robu.Kernel.FaultStorm
import Robu.Kernel.Deadlines
import Robu.Kernel.Requests
import Robu.Kernel.Mounts
import Robu.Kernel.Meeting
import Robu.Vm.Layers
import Robu.Vm.Accounts
import Robu.Channel.Secrecy
import Robu.Ext2.Programs
import Robu.Kernel.PopOrder
import Robu.Vm.Boot
import Robu.Vm.Elf
import Robu.Kernel.ProgramName
import Robu.Kernel.Retype
import Robu.Kernel.Signals
import Robu.Ext2.XattrShared
import Robu.Fat.Time
import Robu.Diskfs.DeviceRead
import Robu.Kernel.Cmdline
import Robu.Usb.Storage
