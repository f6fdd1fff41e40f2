import FractalStudio.Gateway.Capacity
import FractalStudio.Gateway.Terminal
import FractalStudio.Finance.Projection
import FractalStudio.Commerce.Acceptance
import FractalStudio.Commerce.Refund
import FractalStudio.Commerce.Ownership
import FractalStudio.Commerce.Membership
import FractalStudio.Outbox.LifeCycle
import FractalStudio.Gateway.ArtifactIdentity
import FractalStudio.Gateway.PreviewQueue
import FractalStudio.Studio.Redelivery
import FractalStudio.Studio.Cancellation
import FractalStudio.Compute.Isosurface
import FractalStudio.Compute.OrbitPrinting
import FractalStudio.Assets.MeshRoundTrip
import FractalStudio.Studio.PreviewFinished
import FractalStudio.Compute.OrbitBounds
import FractalStudio.Platform.AtMostOnce
import FractalStudio.Commerce.GatewayResponse
import FractalStudio.Ai.TrialLedger
import FractalStudio.Assets.ObjectCleanup
import FractalStudio.Runner.Agreement
import FractalStudio.Runner.Cancellation
import FractalStudio.Runner.Ownership
import FractalStudio.Runner.RunIds
import FractalStudio.Runner.Requests
import FractalStudio.Marketplace.Shown
import FractalStudio.Marketplace.OnSale
import FractalStudio.Ai.LiveStreams
import FractalStudio.Fields.Preempt
import FractalStudio.Compute.PerturbationOffsets
import FractalStudio.Compute.HeightField
import FractalStudio.Compute.TransitionEngines
import FractalStudio.Compute.SliceAgreement
import FractalStudio.Server.ArtifactQuery
import FractalStudio.Accounts.LastAdmin
import FractalStudio.Video.LnMapReuse
import FractalStudio.Video.InteriorShortcut
import FractalStudio.Accounts.Sessions
import FractalStudio.Compute.OrbitSchedule
import FractalStudio.Compute.FixedPixels
import FractalStudio.Compute.CachedSquares
import FractalStudio.Compute.Cancellable
import FractalStudio.Fields.ProgressiveSession
import FractalStudio.Server.ByteRange
import FractalStudio.Newton.PeriodPoly
import FractalStudio.Fields.SnapshotFill
import FractalStudio.Compute.PerturbationLanes
import FractalStudio.LnMap.CutPrecision
import FractalStudio.Studio.GradientReads
import FractalStudio.SpecialPoints.DeepSearch
import FractalStudio.Variants.CaretExpansion
import FractalStudio.Studio.PreviewCanvas
