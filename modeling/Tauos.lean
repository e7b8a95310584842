import Tauos.Memm.Growth
import Tauos.Memm.Conserve
import Tauos.Memm.Footprint
import Tauos.Memm.BitFields
import Tauos.Mapper.MapAt
import Tauos.Mapper.Mapping
import Tauos.Memm.BestFit
import Tauos.Memm.OneSide
import Tauos.Memm.Release
import Tauos.Memm.Tallock
import Tauos.Rust.Loop
import Tauos.Utils.Psf
import Tauos.Out.Console
import Tauos.Out.FrameBuffer
import Tauos.Out.Terminal
import Tauos.Init.Heap
import Tauos.Init.Cpus
import Tauos.Init.BootRun
import Tauos.Out.Bitmap
import Tauos.Amd64.Segmentation
import Tauos.Out.Printing
import Tauos.Out.Serial
import Tauos.Out.PrintText
import Tauos.Mapper.EntryOffset
import Tauos.Init.BootCfg
import Tauos.Memm.Halting
import Tauos.Init.OomHandler
import Tauos.Utils.CopyBits
import Tauos.Memm.Realloc
import Tauos.Memm.Rebase
import Tauos.Mapper.Setup
import Tauos.Memm.SizeClass
import Tauos.Circular.Links
import Tauos.Utils.LlistNode
import Tauos.Utils.IterMut
import Tauos.Mapper.LeafEntry
import Tauos.Amd64.Recursive
import Tauos.Amd64.Descriptors
import Tauos.Amd64.Cr3
import Tauos.Init.Stubs
import Tauos.Init.Bootboot
import Tauos.Init.CfgRun
import Tauos.Init.SysTables
import Tauos.Amd64.Pat
import Tauos.Init.Trap
import Tauos.Mapper.MemoryType
