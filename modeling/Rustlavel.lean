import Rustlavel.Auth.Lifetime
import Rustlavel.Auth.Rotation
import Rustlavel.Auth.SignedUrl
import Rustlavel.AuthKit.RecoveryCodes
import Rustlavel.AuthKit.TimeCodes
import Rustlavel.Billing.Credits
import Rustlavel.Billing.Late
import Rustlavel.Billing.Periods
import Rustlavel.Cache.RateLimit
import Rustlavel.Cache.Resp
import Rustlavel.Cli.Merge
import Rustlavel.Client.Breaker
import Rustlavel.Core.JsonRoundTrip
import Rustlavel.Db.Count
import Rustlavel.Db.Insert
import Rustlavel.Db.Lending
import Rustlavel.Db.Statements
import Rustlavel.Gateway.Forward
import Rustlavel.Gateway.Route
import Rustlavel.Http.Chunks
import Rustlavel.Http.Deflate.RoundTrip
import Rustlavel.Http.Links
import Rustlavel.Http.Sse
import Rustlavel.Http.TrustedProxies
import Rustlavel.Ldap.Names
import Rustlavel.Ledger.Conservation
import Rustlavel.Ledger.LotRaces
import Rustlavel.Ledger.Lots
import Rustlavel.Ledger.Units
import Rustlavel.Mail.Data
import Rustlavel.ModelCache.Entities
import Rustlavel.ModelCache.Generations
import Rustlavel.OAuth.CodeStores
import Rustlavel.OAuth.Codes
import Rustlavel.OAuth.ScopeRefusals
import Rustlavel.Payment.Deliveries
import Rustlavel.Payment.Signature
import Rustlavel.Payment.WebhookLog
import Rustlavel.Queue.Attempts
import Rustlavel.Rbac.Checks
import Rustlavel.WebAuthn.SignCount
import Rustlavel.Ws.Messages
