import AvaotaOS.Image.PackSafe
import AvaotaOS.Rootfs.Mounts
import AvaotaOS.Build.KernelCache
import AvaotaOS.Build.ConfigOrigin
import AvaotaOS.Core.Memory
import AvaotaOS.UBoot.Fastboot
import AvaotaOS.UBoot.OemWrite
import AvaotaOS.UBoot.Upload
import AvaotaOS.Core.Text
import AvaotaOS.Device.InitResize
import AvaotaOS.Device.ResizeSafe
import AvaotaOS.Device.ResizeOutcome
import AvaotaOS.Device.KernelDeb
import AvaotaOS.Device.Rerun
import AvaotaOS.Device.BootFiles
import AvaotaOS.Device.Unwind
import AvaotaOS.Kernel.Patches
import AvaotaOS.Build.Bootloader
import AvaotaOS.Build.Fetch
import AvaotaOS.Rootfs.AptSources
import AvaotaOS.Build.BootCache
import AvaotaOS.Core.ShellWords
import AvaotaOS.Build.Args
import AvaotaOS.Build.ParseArgs
import AvaotaOS.Build.Mirror
import AvaotaOS.Build.LinuxTree
import AvaotaOS.Core.FileTree
import AvaotaOS.Kernel.Metadata
import AvaotaOS.Kernel.Described
import AvaotaOS.Build.Unsupported
import AvaotaOS.Build.Refused
import AvaotaOS.Rootfs.Built
import AvaotaOS.Build.RootfsStage
import AvaotaOS.Core.Memo
import AvaotaOS.Build.RootfsCache
import AvaotaOS.Build.RootfsRecovery
import AvaotaOS.Aic8800.Reorder
import AvaotaOS.Aic8800.ReorderRun
import AvaotaOS.Aic8800.RxPriv
import AvaotaOS.Aic8800.RxSystem
import AvaotaOS.Aic8800.Amsdu
import AvaotaOS.Core.PrioQueue
import AvaotaOS.Aic8800.FrameQueue
import AvaotaOS.Core.Crc
import AvaotaOS.Aic8800.SdioFrame
import AvaotaOS.Aic8800.SdioTx
import AvaotaOS.Aic8800.SdioTxRun
import AvaotaOS.Aic8800.RxFrames
import AvaotaOS.Aic8800.CmdMgr
