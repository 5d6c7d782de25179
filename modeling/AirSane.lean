import AirSane.ScanJob.CallbackOrder
import AirSane.ScanJob.ScannerRelease
import AirSane.ScanJob.WholeImages
import AirSane.ScanJob.CallDiscipline
import AirSane.ImageFormats.DocumentGrammar
import AirSane.Basic.WorkerThread
import AirSane.Server.NextDocument
import AirSane.Server.Termination
import AirSane.Web.AccessSyntax
import AirSane.Web.Framing
import AirSane.Web.Request
import AirSane.Basic.Fdbuf
import AirSane.Server.Reload
import AirSane.Server.Paths
import AirSane.ImageFormats.CrossReference
import AirSane.ScanJob.ScannerStatus
import AirSane.ScanJob.SessionUse
import AirSane.Web.HeaderRoundTrip
import AirSane.Basic.FdbufOutput
import AirSane.Web.AccessNetworks
import AirSane.Sanecpp.Initialised
import AirSane.ScanJob.Determined
import AirSane.Server.Agreement
import AirSane.Web.Body
import AirSane.Zeroconf.Reannounced
import AirSane.ScanJob.TicketWriter
import AirSane.ScanJob.DeliveredDepth
import AirSane.ScanJob.Region
import AirSane.ScanJob.TransferEnds
import AirSane.Server.Serviceable
import AirSane.Server.ScannerPage
import AirSane.Server.Classification
import AirSane.Web.HeaderMap
import AirSane.Web.FormRoundTrip
import AirSane.Sanecpp.SetNumeric
import AirSane.Server.WrittenOptions
import AirSane.Zeroconf.AddressMessages
import AirSane.Basic.Url
import AirSane.ImageFormats.StreamLength
import AirSane.ImageFormats.PngTransfer
import AirSane.Server.StableNames
import AirSane.ImageFormats.JpegDestination
import AirSane.Web.ErrorPage
import AirSane.ScanJob.DeliveredDocument
import AirSane.Server.JobStore
import AirSane.ScanJob.LifeCycle
import AirSane.Server.Descriptors
import AirSane.Server.DeliveredResponse
