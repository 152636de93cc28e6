import OrderProcessing.ForMathlib.Run
import OrderProcessing.ForMathlib.UniqueReading
import OrderProcessing.Hash
import OrderProcessing.Serialization
import OrderProcessing.ForMathlib.Assign
import OrderProcessing.Bson
import OrderProcessing.OrderRepository
import OrderProcessing.Retry
import OrderProcessing.DeliveryClient
import OrderProcessing.ProductAvailability
import OrderProcessing.ForMathlib.Interleave
import OrderProcessing.OrderService
import OrderProcessing.ServiceSteps
import OrderProcessing.Reference
import OrderProcessing.Lifecycle
import OrderProcessing.Linearizability
import OrderProcessing.IdempotentCreate
import OrderProcessing.Publication
import OrderProcessing.Duplicates
import OrderProcessing.Replay
import OrderProcessing.OutboundEventService
import OrderProcessing.QueueConservation
import OrderProcessing.System
import OrderProcessing.StatusMessages
import OrderProcessing.StatusConfluence
import OrderProcessing.Shipments
import OrderProcessing.AppendOnly
import OrderProcessing.Consumers
import OrderProcessing.Acknowledgement
import OrderProcessing.ForMathlib.Deletion
import OrderProcessing.Restriction
import OrderProcessing.NonInterference
import OrderProcessing.ForMathlib.Loop
import OrderProcessing.ForMathlib.FailFast
import OrderProcessing.QueueWorkers
import OrderProcessing.RetryLoop
import OrderProcessing.CreateShipment
import OrderProcessing.ForMathlib.Backoff
import OrderProcessing.RetryDelays
import OrderProcessing.ForMathlib.KeyedQueues
import OrderProcessing.IndependentQueues
import OrderProcessing.AvailabilityLimit
import OrderProcessing.ForMathlib.StableSort
import OrderProcessing.Reordering
import OrderProcessing.KeyOrder
import OrderProcessing.ForMathlib.Embedding
import OrderProcessing.Schema
import OrderProcessing.Config
import OrderProcessing.RateLimit
import OrderProcessing.Routes
import OrderProcessing.Server
import OrderProcessing.Accounting
import OrderProcessing.History
import OrderProcessing.Processed
import OrderProcessing.Admission
import OrderProcessing.Reads
import OrderProcessing.Repeats
import OrderProcessing.Responses
import OrderProcessing.Progress
import OrderProcessing.Deliveries
import OrderProcessing.Recovery
import OrderProcessing.Completion
import OrderProcessing.Validation
import OrderProcessing.Restarts
