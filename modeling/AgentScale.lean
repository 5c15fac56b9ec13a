import AgentScale.Core.Identity
import AgentScale.Control.Durability
import AgentScale.Control.Replay
import AgentScale.Control.Retries
import AgentScale.Control.Reservations
import AgentScale.Control.Authorization
import AgentScale.Control.Watchers
import AgentScale.Control.Renewal
import AgentScale.Control.Withdrawal
import AgentScale.Control.Bootstrap
import AgentScale.Relay.Durability
import AgentScale.Client.Relays
import AgentScale.Client.Reload
import AgentScale.Client.Lifecycle
import AgentScale.Client.Handwritten
import AgentScale.Edge.McpRegistry
import AgentScale.Edge.McpBridge
import AgentScale.Exec.Progress
import AgentScale.Transfer.Delivery
import AgentScale.Proxy.Association
import AgentScale.Deployment.System
import AgentScale.Deployment.Removal
import AgentScale.Deployment.Lockout
import AgentScale.Deployment.Agreement
