import Srh.Adapters.FredTransaction
import Srh.Http.Backstop
import Srh.Http.GatewayAudit

/-! The service on top of the executor: what its requests call is what the sessions, the
transactions and the timeouts were analysed for. -/
namespace Srh.Wiring
open Srh.Lib Srh.Domain Srh.Ports Srh.Http Srh.Adapters

end Srh.Wiring
