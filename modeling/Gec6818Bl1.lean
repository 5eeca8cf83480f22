import Gec6818Bl1.Lib.ByteMem
import Gec6818Bl1.Lib.Lts
import Gec6818Bl1.Lib.Polling
import Gec6818Bl1.Lib.Splice
import Gec6818Bl1.Lib.OpenDrain
import Gec6818Bl1.Lib.PyText
import Gec6818Bl1.Lib.RegTrace
import Gec6818Bl1.Lib.ExactArith
import Gec6818Bl1.Lib.WordStack
import Gec6818Bl1.Lib.Script
import Gec6818Bl1.Boot.Layout
import Gec6818Bl1.Boot.SdmmcBoot
import Gec6818Bl1.Boot.SramGuard
import Gec6818Bl1.Boot.ImagePlacement
import Gec6818Bl1.Boot.Decrypt
import Gec6818Bl1.Boot.Crc
import Gec6818Bl1.Boot.CardMemory
import Gec6818Bl1.Boot.BootMain
import Gec6818Bl1.Boot.Division
import Gec6818Bl1.Psci.Power
import Gec6818Bl1.Psci.Handler
import Gec6818Bl1.Psci.RunSafety
import Gec6818Bl1.Psci.Interleaving
import Gec6818Bl1.Psci.CpuOnRace
import Gec6818Bl1.Psci.LostCore
import Gec6818Bl1.Psci.LostUpdate
import Gec6818Bl1.Psci.Affinity
import Gec6818Bl1.Psci.Smc32
import Gec6818Bl1.Psci.SmcFrame
import Gec6818Bl1.Sdmmc.Driver
import Gec6818Bl1.Sdmmc.SectorData
import Gec6818Bl1.Sdmmc.Clock
import Gec6818Bl1.Sdmmc.AppCommand
import Gec6818Bl1.Emulator.Dwmmc
import Gec6818Bl1.Emulator.Transfer
import Gec6818Bl1.Sdmmc.OnEmulator
import Gec6818Bl1.I2c.Driver
import Gec6818Bl1.Emulator.I2cGpio
import Gec6818Bl1.I2c.Lines
import Gec6818Bl1.I2c.OnEmulator
import Gec6818Bl1.I2c.Init
import Gec6818Bl1.I2c.Session
import Gec6818Bl1.I2c.ErrorPath
import Gec6818Bl1.Pmic.Gec6818
import Gec6818Bl1.Display.Screen
import Gec6818Bl1.Display.BootScreen
import Gec6818Bl1.Ddr.ModeRegisters
import Gec6818Bl1.Ddr.Driver
import Gec6818Bl1.Ddr.Training
import Gec6818Bl1.Ddr.InitDDR3
import Gec6818Bl1.Ddr.Honesty
import Gec6818Bl1.Ddr.SelfRefresh
import Gec6818Bl1.Ddr.Suspend
import Gec6818Bl1.Usb.Receive
import Gec6818Bl1.Usb.Download
import Gec6818Bl1.Usb.Events
import Gec6818Bl1.Usb.DownloadCrc
import Gec6818Bl1.Tools.MkBl1Image
import Gec6818Bl1.Tools.WriteSdcard
import Gec6818Bl1.Tools.ImageSize
import Gec6818Bl1.Tools.Menuconfig
import Gec6818Bl1.Tools.ConfigFile
import Gec6818Bl1.Tools.ConfigSession
import Gec6818Bl1.Clock.ResetCon
import Gec6818Bl1.Clock.PllFreq
import Gec6818Bl1.Clock.UartBaud
import Gec6818Bl1.Display.BootDelay
import Gec6818Bl1.Boot.AtfLoader
import Gec6818Bl1.Tools.HeaderText
import Gec6818Bl1.Boot.WakeUp
import Gec6818Bl1.Usb.GetDescriptor
import Gec6818Bl1.Usb.SetupOrder
import Gec6818Bl1.Ddr.CaCalibration
import Gec6818Bl1.Emulator.Idmac
import Gec6818Bl1.Lib.CString
import Gec6818Bl1.Boot.Printl
import Gec6818Bl1.Lib.Board
import Gec6818Bl1.Lib.RegBus
import Gec6818Bl1.Sdmmc.OnBoard
import Gec6818Bl1.Sdmmc.Open
import Gec6818Bl1.Sdmmc.OpenOnEmulator
import Gec6818Bl1.Boot.SdxcBoot
import Gec6818Bl1.Lib.ForLoop
import Gec6818Bl1.Lib.Aes
import Gec6818Bl1.Boot.SoftCrypto
import Gec6818Bl1.Boot.BootChain
import Gec6818Bl1.Lib.Raster
import Gec6818Bl1.Emulator.Screenshot
import Gec6818Bl1.Display.Framebuffer
import Gec6818Bl1.Display.Picture
