import KafGo.Server.BrokerClient
import KafGo.Server.Registry

/-!
# Registrars

A broker that is not the controller runs a `BrokerRegistrar`: it dials until a registration succeeds and then sends
heartbeats on that connection, with the epoch of the answer, and never dials again. Registrations that were given up
can still reach the controller, brokers are started again while the old process is alive, connections break, and the
controller restarts with the epochs of its configuration. `accepted_newest` says which heartbeats are accepted.
-/

namespace KafGo.Server
open Lib Scanner Coordinator Protocol Storage Wire

def registrarId : Octets := ⟨"broker-registrar".toList.map fun ch => .ofNat ch.toNat, by decide⟩

def registrarHeader (apiKey : Int16) (correlationId : Int32) :
    RequestHeader := ⟨apiKey, 0, correlationId, some registrarId⟩

def registrationFrame (correlationId : Int32) (req : BrokerRegistrationRequest) : Bytes :=
  (registrarHeader 62 correlationId).encode ++ req.encode

def heartbeatFrame (correlationId : Int32) (req : BrokerHeartbeatRequest) : Bytes :=
  (registrarHeader 63 correlationId).encode ++ req.encode

/-- The handlers of the controller leave key and version of the response header at zero. -/
def replyFrame (correlationId : Int32) (body : Bytes) : Bytes := (⟨correlationId, 0, 0⟩ : ResponseHeader).encode ++ body

/-- What `sendRequest` makes of the frame that it reads. The correlation id is not looked at. -/
def received {α : Type} (decode : Decoder α) (framing : Bytes) : Option α :=
  if fits : framing.length ≤ 2 ^ 48 then
    match (do let _ ← ResponseHeader.decode 0 0; decode : Decoder α) (.start ⟨framing, fits⟩) with
    | (.ok body, _) => some body
    | (.error _, _) => none
  else none

/-- Where `RegisterWithRetry` and `heartbeatLoop` are: before a dial, behind a request whose response is awaited, or
between two ticks. -/
inductive RegistrarPhase where
  | dialing
  | asking (conn : Nat)
  | ticking (conn : Nat)
  | beating (conn : Nat)
  | ended
  deriving DecidableEq

def RegistrarPhase.conn : RegistrarPhase → Option Nat
  | .dialing | .ended => none
  | .asking k | .ticking k | .beating k => some k

/-- A registrar with what it reads of its server. `host` and `port` are what `ownHostPort` returns. -/
structure Registrar where
  brokerID : Int32
  clusterID : CompactString
  host : CompactString
  port : Int32
  correlationId : Int32
  brokerEpoch : Int64
  stopping : Bool
  phase : RegistrarPhase

namespace Registrar

theorem plaintext_fits : plaintext.length ≤ 2 ^ 48 := by decide

def request (br : Registrar) (incarnationId : UUID) : BrokerRegistrationRequest :=
  ⟨br.brokerID, br.clusterID, incarnationId, .one ⟨⟨plaintext, plaintext_fits⟩, br.host, br.port, 0⟩, .nil, none⟩

def heartbeat (br : Registrar) (metadataOffset : Int64) : BrokerHeartbeatRequest :=
  ⟨br.brokerID, br.brokerEpoch, metadataOffset, false, false⟩

/-- The end of `register` and of `sendHeartbeat`, once there is a frame to read. -/
def receive (br : Registrar) (framing : Bytes) : Registrar :=
  match br.phase with
  | .asking k => match received BrokerRegistrationResponse.decode framing with
    | none => { br with phase := .dialing }
    | some resp =>
      if resp.errorCode ≠ 0 then { br with phase := .dialing }
      else { br with brokerEpoch := resp.brokerEpoch, phase := .ticking k }
  | .beating k => match received BrokerHeartbeatResponse.decode framing with
    | none => { br with phase := .ticking k }
    | some resp =>
      { br with phase := .ticking k, stopping := br.stopping || (decide (resp.errorCode = 0) && resp.shouldShutDown) }
  | _ => br

def fail (br : Registrar) : Registrar :=
  match br.phase with
  | .asking _ => { br with phase := .dialing }
  | .beating k => { br with phase := .ticking k }
  | _ => br

end Registrar

/-- Where `Conn.handle` is with a request: the handlers look into the registry, change it and use the metadata log one
after the other, and other connections are served in between. -/
inductive Turn where
  | reading
  | registering (correlationId : Int32) (req : BrokerRegistrationRequest)
  | recording (correlationId : Int32) (record : MetadataValue) (epoch : Int64)
  | validating (correlationId : Int32) (req : BrokerHeartbeatRequest)
  | reporting (correlationId : Int32) (req : BrokerHeartbeatRequest)
  | closed

/-- A connection of a registrar: the frames that are under way, and the controller's place in it. What is written to a
broken connection is lost. -/
structure Uplink where
  owner : Nat
  requests : List Bytes
  replies : List Bytes
  turn : Turn
  broken : Bool

namespace Uplink

def reply (link : Uplink) (correlationId : Int32) (body : Bytes) : Uplink :=
  { link with
    replies := if link.broken then link.replies else link.replies ++ [replyFrame correlationId body]
    turn := .reading }

def close (link : Uplink) : Uplink := { link with turn := .closed, broken := true }

/-- The connection breaks, and of what is under way only the first frames arrive. -/
def cut (link : Uplink) (requests replies : Nat) : Uplink :=
  { link with requests := link.requests.take requests, replies := link.replies.take replies, broken := true }

end Uplink

namespace Controller

/-- The first questions of the handlers. Registrars send no other requests. -/
def dispatch (c : Controller) (link : Uplink) (correlationId : Int32) : Request → Uplink
  | .brokerRegistration req =>
    if !c.isController then link.reply correlationId (⟨0, errNotController, 0⟩ : BrokerRegistrationResponse).encode
    else if req.brokerId ≤ 0 then link.reply correlationId
      (⟨0, errInvalidRequest, 0⟩ : BrokerRegistrationResponse).encode
    else { link with turn := .registering correlationId req }
  | .brokerHeartbeat req =>
    if !c.isController then
      link.reply correlationId (⟨0, errNotController, false, false, false⟩ : BrokerHeartbeatResponse).encode
    else { link with turn := .validating correlationId req }
  | _ => link

-- The two bounds that `ReadFraming` checks, in the form that a payload carries them.
theorem framed_nonempty {p : Bytes} (framed : p ≠ [] ∧ p.length ≤ maxPayloadSize) : p ≠ [] := framed.1

theorem framed_fits {p : Bytes} (framed : p ≠ [] ∧ p.length ≤ maxPayloadSize) : p.length ≤ maxPayloadSize := framed.2

/-- A frame is read and decoded. An error in the body is logged. -/
def accept (c : Controller) (link : Uplink) (framing : Bytes) : Uplink :=
  if framed : framing ≠ [] ∧ framing.length ≤ maxPayloadSize then
    match RequestHeader.decode (Payload.reader ⟨framing, framed_nonempty framed, framed_fits framed⟩) with
    | (.error _, _) => link.close
    | (.ok header, reader) => match decodeBody header.apiKey reader with
      | (.error _, _) => link
      | (.ok request, _) => c.dispatch link header.correlationId request
  else link.close

/-- The next thing that `Conn.handle` does with a connection. -/
def serve (c : Controller) (now : Int) (link : Uplink) : Option (Controller × Uplink) :=
  match link.turn with
  | .reading => match link.requests with
    | [] => if link.broken then some (c, link.close) else none
    | framing :: rest => some (c, c.accept { link with requests := rest } framing)
  | .registering correlationId req =>
    let addr := listenerAddr req.listeners.elems
    let (registry, epoch) := c.registry.registerBroker now req.brokerId addr.1 addr.2
    some ({ c with registry := registry },
      { link with turn := .recording correlationId (brokerRecord req epoch) epoch })
  | .recording correlationId record epoch =>
    let (metadataLog, _) := c.metadataLog.append now record.encode
    some ({ c with metadataLog := metadataLog }, link.reply correlationId
      (⟨0, 0, epoch⟩ : BrokerRegistrationResponse).encode)
  | .validating correlationId req =>
    match c.registry.validateAndUpdate now req.brokerId req.brokerEpoch req.currentMetadataOffset with
    | (registry, some _) => some ({ c with registry := registry },
        link.reply correlationId (⟨0, errStaleBrokerEpoch, false, false, false⟩ : BrokerHeartbeatResponse).encode)
    | (registry, none) => some ({ c with registry := registry }, { link with turn := .reporting correlationId req })
  | .reporting correlationId req => some (c, link.reply correlationId (c.heartbeatReport req).encode)
  | .closed => none

end Controller

/-- The controller, the registrars of all processes so far and their connections. `handled` has the registrations that
the registry of this process of the controller got, the newest first. -/
structure Enrolment where
  server : Controller
  links : List Uplink
  registrars : List Registrar
  handled : List (Int32 × Nat)

inductive EnrolmentAction where
  | boot (brokerID : Int32) (clusterID host : CompactString) (port : Int32)
  | dial (i : Nat) (incarnationId : UUID) (written : Bool)
  | receive (i : Nat)
  | fail (i : Nat)
  | tick (i : Nat) (metadataOffset : Int64) (written : Bool)
  | stop (i : Nat)
  | quit (i : Nat)
  /-- The process of a broker ends. -/
  | kill (i : Nat)
  | serve (k : Nat) (now : Int)
  | sever (k requests replies : Nat)
  | restart (now : Int) (closed : Bool)

namespace Enrolment

def setLink (s : Enrolment) (k : Nat) (link : Uplink) : Enrolment := { s with links := s.links.set k link }

def setRegistrar (s : Enrolment) (i : Nat) (br : Registrar) :
    Enrolment := { s with registrars := s.registrars.set i br }

def onLink (s : Enrolment) (i : Nat) (f : Registrar → Nat → Uplink → Option (Registrar × Uplink)) : Option Enrolment :=
  s.registrars[i]?.bind fun br => br.phase.conn.bind fun k => s.links[k]?.bind fun link =>
    (f br k link).map fun pair => (s.setRegistrar i pair.1).setLink k pair.2

def receive (br : Registrar) (link : Uplink) : Option (Registrar × Uplink) :=
  match br.phase, link.replies with
  | .asking _, framing :: rest | .beating _, framing :: rest =>
    let br := br.receive framing
    some (br, { link with replies := rest, broken := link.broken || br.stopping })
  | _, _ => none

def fail (br : Registrar) (link : Uplink) : Option (Registrar × Uplink) :=
  if link.broken ∧ link.replies = [] then some (br.fail, link) else none

/-- A heartbeat can be written to a connection that is broken already, or the write fails. -/
def tick (br : Registrar) (metadataOffset : Int64) (written : Bool) (link : Uplink) : Option (Registrar × Uplink) :=
  match br.phase with
  | .ticking k =>
    let correlationId := br.correlationId + 1
    if written then
      some ({ br with correlationId := correlationId, phase := .beating k },
        { link with requests := if link.broken then link.requests
          else link.requests ++ [heartbeatFrame correlationId (br.heartbeat metadataOffset)] })
    else if link.broken then some ({ br with correlationId := correlationId }, link)
    else none
  | _ => none

/-- `conn.Close()` on the side of the registrar. -/
def hangUp (s : Enrolment) (conn : Option Nat) : Enrolment :=
  match conn with
  | none => s
  | some k => match s.links[k]? with
    | none => s
    | some link => s.setLink k { link with broken := true }

def files (s : Enrolment) (closed : Bool) : List SegmentFiles := ControllerHost.files ⟨s.server, 0, []⟩ closed

def step (config : ServerConfig) : EnrolmentAction → Enrolment → Option Enrolment
  | .boot brokerID clusterID host port, s =>
    some { s with registrars := s.registrars ++ [⟨brokerID, clusterID, host, port, 0, 0, false, .dialing⟩] }
  | .dial i incarnationId written, s => s.registrars[i]?.bind fun br =>
    if br.phase = .dialing then
      let correlationId := br.correlationId + 1
      some { s with
        links := s.links ++ [⟨i, if written then [registrationFrame correlationId (br.request incarnationId)] else [],
          [], .reading, !written⟩]
        registrars := s.registrars.set i { br with
          correlationId := correlationId
          phase := if written then .asking s.links.length else .dialing } }
    else none
  | .receive i, s => s.onLink i fun br _ link => receive br link
  | .fail i, s => s.onLink i fun br _ link => fail br link
  | .tick i metadataOffset written, s => s.onLink i fun br _ link => tick br metadataOffset written link
  | .stop i, s => s.registrars[i]?.map fun br => (s.setRegistrar i { br with stopping := true }).hangUp br.phase.conn
  | .quit i, s => s.registrars[i]?.bind fun br =>
    match br.stopping, br.phase with
    | true, .dialing | true, .ticking _ => some (s.setRegistrar i { br with phase := .ended })
    | _, _ => none
  | .kill i, s => s.registrars[i]?.map fun br => (s.setRegistrar i { br with phase := .ended }).hangUp br.phase.conn
  | .serve k now, s => s.links[k]?.bind fun link => (s.server.serve now link).map fun pair =>
    { s with
      server := pair.1
      links := s.links.set k pair.2
      handled := match link.turn with
        | .registering _ req => (req.brokerId, k) :: s.handled
        | _ => s.handled }
  | .sever k requests replies, s => s.links[k]?.map fun link => s.setLink k (link.cut requests replies)
  | .restart now closed, s =>
    some { s with
      server := config.start now (s.files closed)
      links := s.links.map Uplink.close
      handled := [] }

def machine (config : ServerConfig) : Machine Enrolment EnrolmentAction where
  start s := ∃ now files, s = ⟨config.start now files, [], [], []⟩
  step := step config

def newest (s : Enrolment) (id : Int32) : Option Nat := (s.handled.find? fun x => decide (x.1 = id)).map Prod.snd

end Enrolment

section Frames

theorem reads_registrarHeader (apiKey : Int16) (correlationId : Int32) :
    Reads RequestHeader.decode (registrarHeader apiKey correlationId).encode
      (registrarHeader apiKey correlationId) := by
  refine RequestHeader.reads_header ?_ ?_
  · intro id named
    obtain rfl := Option.some.inj named
    decide
  · intro id named
    obtain rfl := Option.some.inj named
    decide

theorem received_reply {α : Type} {decode : Decoder α} {body : Bytes} {resp got : α} (reads : Reads decode body resp)
    {correlationId : Int32} (read : received decode (replyFrame correlationId body) = some got) : got = resp := by
  unfold received at read
  split at read
  · rename_i fits
    have both := (ResponseHeader.reads ⟨correlationId, 0, 0⟩).bind (k := fun _ => decode) reads
    obtain ⟨_, ran, _⟩ := both (.start ⟨_, fits⟩) [] (Cursor.start_forward _) (List.append_nil _).symm
    rw [ran] at read
    exact (Option.some.inj read).symm
  · cases read

theorem reads_registration (req : BrokerRegistrationRequest) :
    Reads (decodeBody 62) req.encode (.brokerRegistration req) := req.reads.last

theorem reads_heartbeat (req : BrokerHeartbeatRequest) : Reads (decodeBody 63) req.encode (.brokerHeartbeat req) :=
  req.reads.last

variable (c : Controller) (link : Uplink) (correlationId : Int32)

theorem registrarHeader_ne_nil (apiKey : Int16) (body : Bytes) :
    (registrarHeader apiKey correlationId).encode ++ body ≠ [] := by
  intro empty
  have length := congrArg List.length empty
  simp [RequestHeader.encode, writeInt16] at length

theorem accept_frame {apiKey : Int16} {body : Bytes} {request : Request}
    (reads : Reads (decodeBody apiKey) body request) :
    c.accept link ((registrarHeader apiKey correlationId).encode ++ body) =
      if ((registrarHeader apiKey correlationId).encode ++ body).length ≤ maxPayloadSize then
        c.dispatch link correlationId request
      else link.close := by
  unfold Controller.accept
  split
  · rename_i framed
    obtain ⟨reader, header, onward⟩ := reads_registrarHeader apiKey correlationId
      (Payload.reader ⟨_, framed.1, framed.2⟩)
      body (Cursor.start_forward _) rfl
    obtain ⟨_, decoded, _⟩ := reads reader [] onward.forward (by rw [onward.remaining, List.append_nil])
    have decoded : decodeBody (registrarHeader apiKey correlationId).apiKey reader = _ := decoded
    rw [header]
    dsimp only
    rw [decoded, if_pos framed.2]
    rfl
  · rename_i framed
    rw [if_neg fun fits => framed ⟨registrarHeader_ne_nil correlationId apiKey body, fits⟩]

theorem accept_registration (req : BrokerRegistrationRequest) :
    c.accept link (registrationFrame correlationId req) = link.close ∨
      (∃ code, code ≠ 0 ∧ c.accept link (registrationFrame correlationId req) =
        link.reply correlationId (⟨0, code, 0⟩ : BrokerRegistrationResponse).encode) ∨
      c.accept link (registrationFrame correlationId req) = { link with turn := .registering correlationId req } := by
  rw [registrationFrame, accept_frame c link correlationId (reads_registration req)]
  split
  · rw [Controller.dispatch]
    split
    · exact .inr (.inl ⟨errNotController, by decide, rfl⟩)
    · split
      · exact .inr (.inl ⟨errInvalidRequest, by decide, rfl⟩)
      · exact .inr (.inr rfl)
  · exact .inl rfl

theorem accept_heartbeat (req : BrokerHeartbeatRequest) :
    c.accept link (heartbeatFrame correlationId req) = link.close ∨
      (∃ resp : BrokerHeartbeatResponse, c.accept link (heartbeatFrame correlationId req) =
        link.reply correlationId resp.encode) ∨
      c.accept link (heartbeatFrame correlationId req) = { link with turn := .validating correlationId req } := by
  rw [heartbeatFrame, accept_frame c link correlationId (reads_heartbeat req)]
  split
  · rw [Controller.dispatch]
    split
    · exact .inr (.inl ⟨_, rfl⟩)
    · exact .inr (.inr rfl)
  · exact .inl rfl

end Frames

end KafGo.Server
