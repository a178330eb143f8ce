import SealedSky.Lib.Lts
import SealedSky.Lib.Chan
import SealedSky.Lib.Memo
import SealedSky.Lib.Fallible
import SealedSky.Lib.Utf8
import SealedSky.Lib.Scan
import SealedSky.Lib.JsonText
import SealedSky.Lib.Lines
import SealedSky.Lib.Words
import SealedSky.Lib.Sha256
import SealedSky.Lib.Crc32
import SealedSky.Lib.Base64
import SealedSky.Lib.UrlEncoded
import SealedSky.Lib.Utf8Lossy
import SealedSky.Lib.BlockDev
import SealedSky.Lib.BlockProg
import SealedSky.Lib.Binary64
import SealedSky.Js.String
import SealedSky.Js.Digest
import SealedSky.Js.Number
import SealedSky.Js.Value
import SealedSky.Js.Object
import SealedSky.Js.Json
import SealedSky.Js.JsonRoundtrip
import SealedSky.Js.IsJson
import SealedSky.Js.JsonCut
import SealedSky.Js.Arith
import SealedSky.Js.Codec
import SealedSky.Js.BigInt
import SealedSky.TrustedApplet.Serve
import SealedSky.TrustedApplet.Scanning
import SealedSky.TrustedApplet.Main
import SealedSky.TrustedApplet.Isolation
import SealedSky.TrustedOs.Rpc
import SealedSky.TrustedOs.Conservation
import SealedSky.TrustedOs.JsonRpc
import SealedSky.TrustedOs.RecvText
import SealedSky.TrustedOs.Session
import SealedSky.TrustedOs.Replies
import SealedSky.TrustedOs.SendText
import SealedSky.TrustedOs.AppletStore
import SealedSky.TrustedOs.Confinement
import SealedSky.TrustedOs.Boot
import SealedSky.TrustedOs.PowerLoss
import SealedSky.TrustedOs.Uploads
import SealedSky.TrustedOs.Console
import SealedSky.TrustedOs.GoJson
import SealedSky.TrustedOs.Bridge
import SealedSky.TrustedOs.Lifetime
import SealedSky.Oracle.Contract
import SealedSky.Backend.Payload
import SealedSky.Backend.Server
import SealedSky.Backend.Auditable
import SealedSky.Backend.History
import SealedSky.Backend.Agreement
import SealedSky.Backend.EnsLabel
import SealedSky.Backend.Publish
import SealedSky.Backend.ReadBack
import SealedSky.Backend.Endpoints
import SealedSky.Backend.Ledger
import SealedSky.Web.Drand
import SealedSky.Web.Queue
import SealedSky.Web.Tabs
import SealedSky.Web.Symmetric
import SealedSky.Web.Binding
import SealedSky.Web.Envelope
import SealedSky.Web.Ctrng
import SealedSky.Web.Share
import SealedSky.Web.Sealing
import SealedSky.Web.Fidelity
import SealedSky.Web.Import
import SealedSky.Web.BootImport
import SealedSky.Web.Addressing
import SealedSky.Web.NameStone
import SealedSky.Web.UnlockTime
import SealedSky.Web.Unseal
import SealedSky.Web.App
import SealedSky.Web.Reveal
import SealedSky.Web.Capsule
import SealedSky.Web.Timelock
import SealedSky.Web.Integrity
import SealedSky.Web.Live
import SealedSky.Web.Final
import SealedSky.Web.Wallet
import SealedSky.Web.UsbSignInference
import SealedSky.Web.SignSubmit
import SealedSky.Web.Compose
import SealedSky.Host.Literals
import SealedSky.Host.CallApplet
import SealedSky.Host.Served
import SealedSky.Host.Upload
import SealedSky.Host.Signing
