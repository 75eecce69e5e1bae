import PracticalMicroservice.Inventory.Service
import PracticalMicroservice.Inventory.Proofs.BulkProofs
import PracticalMicroservice.Inventory.Proofs.BulkEffectProofs
import PracticalMicroservice.Foundations.Transactional
import PracticalMicroservice.Inventory.Proofs.StockInvariantProofs
import PracticalMicroservice.Inventory.Proofs.BulkRefinementProofs
import PracticalMicroservice.Inventory.Consumer
import PracticalMicroservice.Inventory.Delivery
import PracticalMicroservice.Inventory.Proofs.DeliveryProofs
import PracticalMicroservice.Cart.Env
import PracticalMicroservice.Cart.Planner
import PracticalMicroservice.Cart.Redis
import PracticalMicroservice.Foundations.Program
import PracticalMicroservice.Cart.World
import PracticalMicroservice.Cart.Adapters
import PracticalMicroservice.Cart.Repository
import PracticalMicroservice.Cart.Service
import PracticalMicroservice.Cart.Custody
import PracticalMicroservice.Cart.Proofs.AccountProofs
import PracticalMicroservice.Cart.Proofs.AdapterProofs
import PracticalMicroservice.Cart.Proofs.CallProofs
import PracticalMicroservice.Cart.Proofs.CustodyProofs
import PracticalMicroservice.Cart.Proofs.SoloProofs
import PracticalMicroservice.Auth.Families
import PracticalMicroservice.Auth.Guesses
import PracticalMicroservice.Auth.Lockout
import PracticalMicroservice.Auth.Proofs.AccountProofs
import PracticalMicroservice.Auth.Proofs.CodeProofs
import PracticalMicroservice.Auth.Proofs.DisciplineProofs
import PracticalMicroservice.Auth.Proofs.GuessProofs
import PracticalMicroservice.Auth.Proofs.LockoutProofs
import PracticalMicroservice.Auth.Proofs.MintProofs
import PracticalMicroservice.Email.Dispatcher
import PracticalMicroservice.Email.Fencing
import PracticalMicroservice.Email.Proofs.FencingProofs
import PracticalMicroservice.Auth.Outcomes
import PracticalMicroservice.Auth.Enumeration
import PracticalMicroservice.Auth.Proofs.CooldownProofs
import PracticalMicroservice.Auth.Proofs.EnumerationProofs
import PracticalMicroservice.Auth.Proofs.OutcomeProofs
import PracticalMicroservice.Auth.Proofs.SignInProofs
import PracticalMicroservice.Foundations.Regex
import PracticalMicroservice.Gateway.Coverage
import PracticalMicroservice.Gateway.Proofs.CoverageProofs
import PracticalMicroservice.Auth.Proofs.ReaperProofs
import PracticalMicroservice.Auth.Proofs.ReplayProofs
import PracticalMicroservice.Email.Attempts
import PracticalMicroservice.Email.Exclusivity
import PracticalMicroservice.Email.Proofs.AttemptProofs
import PracticalMicroservice.Email.Proofs.ExclusivityProofs
import PracticalMicroservice.Email.Outbox
import PracticalMicroservice.Email.Proofs.EnqueueProofs
import PracticalMicroservice.Email.Proofs.IdempotencyProofs
import PracticalMicroservice.Email.Proofs.RaceProofs
import PracticalMicroservice.Inventory.Proofs.RemovalProofs
import PracticalMicroservice.Cart.Commit
import PracticalMicroservice.Cart.Proofs.CommitProofs
import PracticalMicroservice.Inventory.Proofs.PatchProofs
import PracticalMicroservice.Inventory.Proofs.RangeProofs
import PracticalMicroservice.Inventory.Proofs.TrailProofs
import PracticalMicroservice.Cart.Lock
import PracticalMicroservice.Cart.Proofs.LockProofs
import PracticalMicroservice.Foundations.Pages
import PracticalMicroservice.Inventory.Listing
import PracticalMicroservice.Inventory.Proofs.ListingProofs
import PracticalMicroservice.Messaging.Amqp
import PracticalMicroservice.Messaging.Proofs.AmqpProofs
import PracticalMicroservice.Messaging.Proofs.ClientProofs
import PracticalMicroservice.Messaging.Proofs.ConsumerProofs
import PracticalMicroservice.Messaging.Proofs.RecoveryProofs
import PracticalMicroservice.Inventory.Proofs.StockingProofs
import PracticalMicroservice.Products.Proofs.CallProofs
import PracticalMicroservice.Products.Proofs.CreationProofs
import PracticalMicroservice.Products.Proofs.RemovalProofs
import PracticalMicroservice.Email.Concurrency
import PracticalMicroservice.Email.Proofs.ConcurrencyProofs
import PracticalMicroservice.Foundations.RegExp
import PracticalMicroservice.Gateway.PolicySource
import PracticalMicroservice.Gateway.Proofs.PolicySourceProofs
import PracticalMicroservice.Messaging.Proofs.PublishingProofs
import PracticalMicroservice.Products.Listing
import PracticalMicroservice.Products.Proofs.StatusProofs
import PracticalMicroservice.Cart.Expiry
import PracticalMicroservice.Cart.Proofs.ExpiryProofs
import PracticalMicroservice.Cart.Proofs.ScheduleProofs
import PracticalMicroservice.Cart.Proofs.TimingProofs
import PracticalMicroservice.Cart.Dispatch
import PracticalMicroservice.Cart.Proofs.DispatchProofs
import PracticalMicroservice.Auth.Handoff
import PracticalMicroservice.Auth.Proofs.HandoffProofs
import PracticalMicroservice.Auth.Accesses
import PracticalMicroservice.Auth.Interleaving
import PracticalMicroservice.Auth.Proofs.AccessProofs
import PracticalMicroservice.Auth.Proofs.ChainProofs
import PracticalMicroservice.Auth.Proofs.SerialProofs
import PracticalMicroservice.Auth.Proofs.SweepProofs
import PracticalMicroservice.Auth.Proofs.UsableProofs
import PracticalMicroservice.Auth.Concurrency
import PracticalMicroservice.Auth.Proofs.CountProofs
import PracticalMicroservice.Auth.Proofs.LineageProofs
import PracticalMicroservice.Gateway.Edge
import PracticalMicroservice.Gateway.Proofs.EdgeProofs
import PracticalMicroservice.Email.Proofs.DeliverabilityProofs
import PracticalMicroservice.Processes.Lifecycle
import PracticalMicroservice.Processes.Proofs.LifecycleProofs
import PracticalMicroservice.Email.Mailing
import PracticalMicroservice.Email.Proofs.MailingProofs
