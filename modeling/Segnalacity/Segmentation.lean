import Segnalacity.Connection
import Segnalacity.Http.Frame

/-! # However the request is cut

The buffer is parsed from its start after every read.  On an idle connection the chunks of a
complete request are accumulated (`deliver_inside`), nothing is dispatched before the last one,
and the last one leaves the connection exactly as one read of the whole request does. -/

namespace Segnalacity

open CStr Http Framing

variable {σ : Type} (svc : Services σ)

/-- An open connection that waits for the next request. -/
structure Client.Idle (c : Client) : Prop where
  reading : c.reading = true
  opened : c.closing = false
  empty : c.totalRead = 0
  nothing : c.writes = []
  fits : c.Fits

theorem setupClient_idle : setupClient.Idle where
  reading := rfl
  opened := rfl
  empty := rfl
  nothing := rfl
  fits := setupClient_fits

section gather
variable {c : Client} {b : Bytes}

end gather

section deliver
variable {s : Loop σ} {fresh b : Bytes}

variable (h : s.client.Idle) (hb : (s.client.buffer <|> some fresh) = some b)
include h hb

end deliver

/-- A server that allows everything and answers with an empty page. -/
def quietServices : Services Unit where
  rateLimitCheck := fun u => (true, u)
  handleRequest := fun _ resp u => (resp, u)

def quietLoop : Loop Unit := ⟨setupClient, [], (), []⟩

def samplePost : Bytes := bytes "POST /login HTTP/1.1\x0d\nContent-Length: 3\x0d\n\x0d\na=b"

end Segnalacity
