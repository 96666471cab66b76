import Winegrid.Lib.Machine
import Winegrid.Lib.Journal
import Winegrid.Lib.CString
import Winegrid.Lib.History
import Winegrid.Lib.Decimal
import Winegrid.Lib.JsonText
import Winegrid.Lib.TextEncoding
import Winegrid.Lib.Memory
import Winegrid.Lib.Ledger
import Winegrid.Mcp3221
import Winegrid.Zephyr.Client
import Winegrid.Zephyr.Inbound
import Winegrid.Zephyr.Extract
import Winegrid.Zephyr.Arrays
import Winegrid.Zephyr.Provisioning
import Winegrid.Zephyr.History
import Winegrid.Rn2483.Driver
import Winegrid.Rn2483.Pairing
import Winegrid.Rn2483.Transmit
import Winegrid.Rn2483.Framing
import Winegrid.Lwm2m.FirmwareUpdate
import Winegrid.Lwm2m.Upgrade
import Winegrid.Esp.Json
import Winegrid.Esp.Flash
import Winegrid.Esp.Device
import Winegrid.Esp.Marker
import Winegrid.Esp.AntiLoop
import Winegrid.Esp.Blame
import Winegrid.Esp.Protocol
import Winegrid.Esp.Laws
import Winegrid.ThingsBoard.Client
import Winegrid.ThingsBoard.Steps
import Winegrid.ThingsBoard.Integrity
import Winegrid.ThingsBoard.Chunks
import Winegrid.ThingsBoard.Packages
import Winegrid.ThingsBoard.Reports
import Winegrid.ThingsBoard.Attempts
import Winegrid.ThingsBoard.Release
import Winegrid.ThingsBoard.Network
import Winegrid.ThingsBoard.Transfer
import Winegrid.ThingsBoard.Device
import Winegrid.ThingsBoard.Provisioning
import Winegrid.Azure.Client
import Winegrid.Azure.Twin
import Winegrid.Azure.Device
import Winegrid.Azure.Reports
import Winegrid.Azure.Outcome
import Winegrid.Azure.Pending
import Winegrid.Azure.Dps
import Winegrid.Azure.Assignment
import Winegrid.Azure.SasToken
import Winegrid.Azure.Update
import Winegrid.Azure.Balance
import Winegrid.Azure.Telemetry
import Winegrid.Azure.Timeout
import Winegrid.Azure.Methods
import Winegrid.Devices
import Winegrid.Dispatch
import Winegrid.ThingsBoard.Attributes
import Winegrid.Handover
import Winegrid.NativeOta.Flash
import Winegrid.NativeOta.Task
import Winegrid.NativeOta.Steps
import Winegrid.NativeOta.Boots
import Winegrid.NativeOta.Transfer
import Winegrid.NativeOta.Versions
import Winegrid.Sx12xx.Modem
import Winegrid.Sx12xx.Steps
import Winegrid.Sx12xx.Release
import Winegrid.Sx12xx.Phases
import Winegrid.Sx12xx.Interleavings
import Winegrid.Sx12xx.Receive
import Winegrid.Azure.Trace
import Winegrid.Azure.Completes
import Winegrid.Esp.Images
import Winegrid.Azure.Deploys
import Winegrid.ThingsBoard.Token
import Winegrid.ThingsBoard.Deploys
import Winegrid.Zephyr.Application
import Winegrid.Zephyr.Session
import Winegrid.Rn2483.Exchange
import Winegrid.Rn2483.Deadlines
import Winegrid.OtaUpdate
