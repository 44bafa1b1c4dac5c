import KafGo.Coordinator.MetadataLog
import KafGo.Lib.Keyed
import KafGo.Lib.Machine
import KafGo.Server.Broker
import KafGo.Wire.Admin

/-!
# The broker registry

Brokers register with the controller and then send heartbeats with the epoch that they were given. The registry is in
memory: a start of the controller fills it from the configuration. The epoch of a registration is also in the metadata
log, but nothing reads it there when the log is opened again.
-/

namespace KafGo.Server
open Lib Coordinator Protocol Storage

def errNotController : Int16 := 41
def errInvalidRequest : Int16 := 42
def errStaleBrokerEpoch : Int16 := 77

def fenceThreshold : Int := 10

structure BrokerInfo where
  brokerId : Int32
  host : Bytes
  port : Int32
  epoch : Int64
  metadataOffset : Int64
  lastSeen : Int

abbrev BrokerRegistry := List BrokerInfo

inductive RegistryError where
  | notFound (id : Int32)
  | staleEpoch (expected got : Int64)
  deriving DecidableEq

namespace BrokerRegistry

def info (r : BrokerRegistry) (id : Int32) : Option BrokerInfo := lookupKey BrokerInfo.brokerId r id

def registerBroker (r : BrokerRegistry) (now : Int) (id : Int32) (host : Bytes) (port : Int32) :
    BrokerRegistry × Int64 :=
  let newEpoch : Int64 := match r.info id with
    | none => 1
    | some existing => existing.epoch + 1
  (insertKey BrokerInfo.brokerId r ⟨id, host, port, newEpoch, 0, now⟩, newEpoch)

def validateAndUpdate (r : BrokerRegistry) (now : Int) (id : Int32) (epoch metadataOffset : Int64) :
    BrokerRegistry × Option RegistryError :=
  match r.info id with
  | none => (r, some (.notFound id))
  | some info =>
    if info.epoch ≠ epoch then (r, some (.staleEpoch info.epoch epoch))
    else (insertKey BrokerInfo.brokerId r { info with metadataOffset := metadataOffset, lastSeen := now }, none)

def lowestBrokerID (r : BrokerRegistry) : Int := lowestID (r.map fun info => info.brokerId.toInt)

def epochOf (r : BrokerRegistry) (id : Int32) : Int64 := ((r.info id).map BrokerInfo.epoch).getD 0

end BrokerRegistry

/-- A peer of the configuration. There is no address if host and port cannot be read from it. -/
structure Peer where
  id : Int32
  addr : Option (Bytes × Int32)

/-- The configured peers are a map from ids to addresses. -/
structure ServerConfig where
  brokerID : Int32
  host : Bytes
  port : Int32
  peers : List Peer
  distinct : (peers.map Peer.id).Nodup

namespace ServerConfig

def setPeer (config : ServerConfig) (now : Int) (r : BrokerRegistry) (peer : Peer) : BrokerRegistry :=
  if peer.id = config.brokerID then r
  else match peer.addr with
    | none => r
    | some (host, port) => (r.registerBroker now peer.id host port).1

/-- `NewServer` registers the broker itself, `SetPeers` the others. -/
def registry (config : ServerConfig) (now : Int) : BrokerRegistry :=
  config.peers.foldl (config.setPeer now)
    (BrokerRegistry.registerBroker [] now config.brokerID config.host config.port).1

/-- The registrations of a broker that its configuration makes: one or none. -/
def preset (config : ServerConfig) (id : Int32) : Nat :=
  if id = config.brokerID ∨ ∃ peer ∈ config.peers, peer.id = id ∧ peer.addr.isSome then 1 else 0

end ServerConfig

/-- What the handlers of registrations and heartbeats use of a server. -/
structure Controller where
  brokerID : Int32
  registry : BrokerRegistry
  metadataLog : MetadataLog

def plaintext : Bytes := [80, 76, 65, 73, 78, 84, 69, 88, 84]

/-- The address of a broker: its `PLAINTEXT` listener, or the first one if that has no host. -/
def listenerAddr (listeners : List Wire.BrokerListener) : Bytes × Int32 :=
  let found := listeners.find? fun l => decide (l.name.bytes = plaintext)
  let addr : Bytes × Int32 := match found with
    | none => ([], 0)
    | some l => (l.host.bytes, l.port)
  if addr.1 = [] then match listeners with
    | [] => addr
    | l :: _ => (l.host.bytes, l.port)
  else addr

namespace Controller

def isController (c : Controller) : Bool := decide (c.brokerID.toInt = c.registry.lowestBrokerID)

def brokerRecord (req : Wire.BrokerRegistrationRequest) (epoch : Int64) : MetadataValue :=
  let addr := listenerAddr req.listeners.elems
  .broker req.brokerId.toInt addr.1 addr.2.toInt epoch.toInt

/-- That the record could not be appended is ignored. -/
def handleBrokerRegistration (c : Controller) (now : Int) (req : Wire.BrokerRegistrationRequest) :
    Controller × Wire.BrokerRegistrationResponse :=
  if !c.isController then (c, ⟨0, errNotController, 0⟩)
  else if req.brokerId ≤ 0 then (c, ⟨0, errInvalidRequest, 0⟩)
  else
    let addr := listenerAddr req.listeners.elems
    let (registry, epoch) := c.registry.registerBroker now req.brokerId addr.1 addr.2
    let (metadataLog, _) := c.metadataLog.append now (brokerRecord req epoch).encode
    ({ c with registry := registry, metadataLog := metadataLog }, ⟨0, 0, epoch⟩)

def heartbeatReport (c : Controller) (req : Wire.BrokerHeartbeatRequest) : Wire.BrokerHeartbeatResponse :=
  let newestOffset := c.metadataLog.newestOffset
  let current := req.currentMetadataOffset.toInt
  ⟨0, 0, decide (current ≥ newestOffset), decide (wrapSigned 64 (newestOffset - current) > fenceThreshold),
    req.wantShutDown⟩

def handleBrokerHeartbeat (c : Controller) (now : Int) (req : Wire.BrokerHeartbeatRequest) :
    Controller × Wire.BrokerHeartbeatResponse :=
  if !c.isController then (c, ⟨0, errNotController, false, false, false⟩)
  else
    match c.registry.validateAndUpdate now req.brokerId req.brokerEpoch req.currentMetadataOffset with
    | (registry, some _) => ({ c with registry := registry }, ⟨0, errStaleBrokerEpoch, false, false, false⟩)
    | (registry, none) => ({ c with registry := registry }, c.heartbeatReport req)

end Controller

/-- `NewServer`, `SetPeers` and `Start` on the files of the metadata log. -/
def ServerConfig.start (config : ServerConfig) (now : Int) (files : List SegmentFiles) : Controller :=
  let registry := config.registry now
  let controllerID := registry.lowestBrokerID
  { brokerID := config.brokerID
    registry := registry
    metadataLog := (newMetadataLog.init (newCommitLog defaultCommitLogConfig files)).setPartitionState
      (newPartition clusterMetadata 0 controllerID 0 [controllerID] [controllerID]).ps }

structure Registration where
  id : Int32
  epoch : Int64
  process : Nat
  deriving DecidableEq

/-- A controller and the registrations it has answered so far, the newest first. -/
structure ControllerHost where
  server : Controller
  process : Nat
  answered : List Registration

inductive ControllerAction where
  | register (now : Int) (req : Wire.BrokerRegistrationRequest)
  | heartbeat (now : Int) (req : Wire.BrokerHeartbeatRequest)
  /-- The process ends, with its files closed or as they are, and starts again. -/
  | restart (now : Int) (closed : Bool)

namespace ControllerHost

def files (s : ControllerHost) (closed : Bool) : List SegmentFiles :=
  match s.server.metadataLog.commitLog with
  | none => []
  | some cl => if closed then cl.close else cl.files

def act (config : ServerConfig) (s : ControllerHost) : ControllerAction → ControllerHost
  | .register now req =>
    let (server, response) := s.server.handleBrokerRegistration now req
    { s with
      server := server
      answered := if response.errorCode = 0 then ⟨req.brokerId, response.brokerEpoch, s.process⟩ :: s.answered
        else s.answered }
  | .heartbeat now req => { s with server := (s.server.handleBrokerHeartbeat now req).1 }
  | .restart now closed => { s with server := config.start now (s.files closed), process := s.process + 1 }

def machine (config : ServerConfig) : Machine ControllerHost ControllerAction where
  start s := ∃ now files, s = ⟨config.start now files, 0, []⟩
  step a s := some (s.act config a)

def epochs (s : ControllerHost) (id : Int32) : List Int64 :=
  (s.answered.filter fun a => decide (a.id = id)).map Registration.epoch

/-- Later registrations of a broker have higher epochs, and a heartbeat with the epoch of an earlier one is rejected
and changes nothing. -/
structure Fences (s : ControllerHost) (id : Int32) : Prop where
  increasing : (s.epochs id).Pairwise (· > ·)
  rejected : ∀ epoch ∈ (s.epochs id).tail, ∀ now offset, ∃ e,
    s.server.registry.validateAndUpdate now id epoch offset = (s.server.registry, some e)
  refused : ∀ req : Wire.BrokerHeartbeatRequest, req.brokerId = id → req.brokerEpoch ∈ (s.epochs id).tail → ∀ now,
    (s.server.handleBrokerHeartbeat now req).1 = s.server ∧ (s.server.handleBrokerHeartbeat now req).2.errorCode ≠ 0

/-- All registrations of a broker were answered by one process. -/
def OneProcess (s : ControllerHost) (id : Int32) : Prop :=
  ∀ a ∈ s.answered, ∀ b ∈ s.answered, a.id = id → b.id = id → a.process = b.process

end ControllerHost

/-! ### Epochs in the registry -/

namespace BrokerRegistry

theorem registerBroker_epoch (r : BrokerRegistry) (now : Int) (id : Int32) (host : Bytes) (port : Int32) :
    (r.registerBroker now id host port).2 = r.epochOf id + 1 := by
  unfold registerBroker epochOf
  cases r.info id with
  | none => rfl
  | some existing => rfl

theorem info_insert (r : BrokerRegistry) (b : BrokerInfo) (k : Int32) :
    info (insertKey BrokerInfo.brokerId r b) k = if k = b.brokerId then some b else r.info k := by
  split
  · rename_i same
    exact same ▸ lookupKey_insertKey_same b
  · rename_i other
    exact lookupKey_insertKey_other b other

theorem epochOf_registerBroker (r : BrokerRegistry) (now : Int) (id k : Int32) (host : Bytes) (port : Int32) :
    (r.registerBroker now id host port).1.epochOf k = if k = id then r.epochOf id + 1 else r.epochOf k := by
  rw [← r.registerBroker_epoch now id host port]
  unfold registerBroker epochOf
  dsimp only
  rw [info_insert]
  dsimp only
  split
  · rfl
  · rfl

theorem epochOf_validateAndUpdate (r : BrokerRegistry) (now : Int) (id k : Int32) (epoch offset : Int64) :
    (r.validateAndUpdate now id epoch offset).1.epochOf k = r.epochOf k := by
  unfold validateAndUpdate
  split
  · rfl
  · rename_i found here
    split
    · rfl
    · have key : found.brokerId = id := (lookupKey_some here).2
      unfold epochOf
      dsimp only
      rw [info_insert]
      dsimp only
      split
      · rename_i same
        rw [same, key, here]
        rfl
      · rfl

theorem validateAndUpdate_stale (r : BrokerRegistry) (now : Int) (id : Int32) {epoch : Int64} (offset : Int64)
    (stale : r.epochOf id ≠ epoch) : ∃ e, r.validateAndUpdate now id epoch offset = (r, some e) := by
  unfold validateAndUpdate
  unfold epochOf at stale
  cases here : r.info id with
  | none => exact ⟨_, rfl⟩
  | some found =>
    rw [here] at stale
    exact ⟨.staleEpoch found.epoch epoch, if_pos stale⟩

end BrokerRegistry

namespace ServerConfig

theorem setPeers_epochOf (config : ServerConfig) (now : Int) (id : Int32) (peers : List Peer) (r : BrokerRegistry)
    (distinct : (peers.map Peer.id).Nodup) :
    (peers.foldl (config.setPeer now) r).epochOf id =
      if id ≠ config.brokerID ∧ ∃ peer ∈ peers, peer.id = id ∧ peer.addr.isSome then r.epochOf id + 1
      else r.epochOf id := by
  induction peers generalizing r with
  | nil => simp
  | cons peer rest ih =>
    rw [List.map_cons, List.nodup_cons] at distinct
    rw [List.foldl_cons, ih _ distinct.2]
    by_cases own : id = config.brokerID
    · have kept : (config.setPeer now r peer).epochOf id = r.epochOf id := by
        unfold setPeer
        split
        · rfl
        · rename_i other
          split
          · rfl
          · rw [BrokerRegistry.epochOf_registerBroker, if_neg (by rw [own]; exact fun same => other same.symm)]
      rw [if_neg (fun both => both.1 own), if_neg (fun both => both.1 own), kept]
    · by_cases here : peer.id = id
      · -- The other peers have other ids.
        have alone : ¬ ∃ p ∈ rest, p.id = id ∧ p.addr.isSome := by
          rintro ⟨p, member, same, _⟩
          exact distinct.1 (by rw [here, ← same]; exact List.mem_map_of_mem member)
        rw [if_neg (fun both => alone both.2)]
        unfold setPeer
        rw [if_neg (by rw [here]; exact own)]
        cases addr : peer.addr with
        | none =>
          rw [if_neg]
          rintro ⟨_, p, member, same, some⟩
          rcases List.mem_cons.mp member with rfl | later
          · rw [addr] at some
            cases some
          · exact alone ⟨p, later, same, some⟩
        | some pair =>
          rw [if_pos ⟨own, peer, List.mem_cons_self, here, by rw [addr]; rfl⟩]
          show (r.registerBroker now peer.id pair.1 pair.2).1.epochOf id = _
          rw [BrokerRegistry.epochOf_registerBroker, if_pos here.symm, here]
      · have kept : (config.setPeer now r peer).epochOf id = r.epochOf id := by
          unfold setPeer
          split
          · rfl
          · split
            · rfl
            · rw [BrokerRegistry.epochOf_registerBroker, if_neg (fun same => here same.symm)]
        have later : (∃ p ∈ peer :: rest, p.id = id ∧ p.addr.isSome) ↔ ∃ p ∈ rest, p.id = id ∧ p.addr.isSome := by
          simp [here]
        rw [kept]
        simp only [later]

theorem registry_epochOf (config : ServerConfig) (now : Int) (id : Int32) :
    (config.registry now).epochOf id = .ofNat (config.preset id) := by
  unfold registry preset
  rw [config.setPeers_epochOf now id _ _ config.distinct, BrokerRegistry.epochOf_registerBroker]
  by_cases own : id = config.brokerID
  · rw [if_neg (fun both => both.1 own), if_pos own, if_pos (.inl own)]
    rfl
  · by_cases peer : ∃ peer ∈ config.peers, peer.id = id ∧ peer.addr.isSome
    · rw [if_pos ⟨own, peer⟩, if_neg own, if_pos (.inr peer)]
      rfl
    · rw [if_neg (fun both => peer both.2), if_neg own, if_neg (not_or.mpr ⟨own, peer⟩)]
      rfl

theorem preset_le (config : ServerConfig) (id : Int32) : config.preset id ≤ 1 := by
  unfold preset
  split <;> omega

end ServerConfig

def countdown (base : Nat) : Nat → List Int64
  | 0 => []
  | n + 1 => .ofNat (base + n + 1) :: countdown base n

theorem mem_countdown {base n : Nat} {epoch : Int64} (member : epoch ∈ countdown base n) :
    ∃ k < n, epoch = .ofNat (base + k + 1) := by
  induction n with
  | zero => cases member
  | succ n ih =>
    rcases List.mem_cons.mp member with rfl | later
    · exact ⟨n, Nat.lt_succ_self n, rfl⟩
    · obtain ⟨k, below, eq⟩ := ih later
      exact ⟨k, Nat.lt_succ_of_lt below, eq⟩

theorem first_mem_countdown (base : Nat) {n : Nat} (positive : 0 < n) : Int64.ofNat (base + 1) ∈ countdown base n := by
  induction n with
  | zero => omega
  | succ n ih =>
    cases n with
    | zero => exact List.mem_cons_self
    | succ n => exact List.mem_cons_of_mem _ (ih (Nat.succ_pos n))

theorem epoch_lt {m n : Nat} (less : m < n) (fits : n < 2 ^ 63) : Int64.ofNat m < Int64.ofNat n := by
  rw [Int64.lt_iff_toInt_lt, Int64.toInt_ofNat_of_lt (by omega), Int64.toInt_ofNat_of_lt fits]
  exact Int.ofNat_lt.mpr less

theorem countdown_decreasing {base : Nat} (small : base ≤ 1) (n : Nat) :
    (countdown base n).Pairwise (· > ·) ↔ base + n < 2 ^ 63 := by
  induction n with
  | zero => exact ⟨fun _ => by omega, fun _ => List.Pairwise.nil⟩
  | succ n ih =>
    rw [countdown, List.pairwise_cons, ih]
    constructor
    · rintro ⟨above, fits⟩
      by_contra past
      -- The newest epoch is the first one past the maximum, the one before it the maximum itself.
      obtain ⟨k, rfl⟩ : ∃ k, n = k + 1 := ⟨n - 1, by omega⟩
      have wrapped := above (.ofNat (base + k + 1)) List.mem_cons_self
      rw [show base + (k + 1) + 1 = 2 ^ 63 by omega, show base + k + 1 = 2 ^ 63 - 1 by omega] at wrapped
      exact absurd wrapped (by decide)
    · intro fits
      refine ⟨?_, by omega⟩
      intro epoch member
      obtain ⟨k, below, rfl⟩ := mem_countdown member
      exact epoch_lt (by omega) (by omega)

/-! ### Epochs of a run -/

namespace Controller

theorem registration_cases (c : Controller) (now : Int) (req : Wire.BrokerRegistrationRequest) :
    ((c.handleBrokerRegistration now req).1 = c ∧ (c.handleBrokerRegistration now req).2.errorCode ≠ 0) ∨
    ∃ host port,
      (c.handleBrokerRegistration now req).1.registry = (c.registry.registerBroker now req.brokerId host port).1 ∧
      (c.handleBrokerRegistration now req).2 = ⟨0, 0, c.registry.epochOf req.brokerId + 1⟩ := by
  unfold handleBrokerRegistration
  split
  · exact .inl ⟨rfl, (by decide : errNotController ≠ 0)⟩
  · split
    · exact .inl ⟨rfl, (by decide : errInvalidRequest ≠ 0)⟩
    · refine .inr ⟨(listenerAddr req.listeners.elems).1, (listenerAddr req.listeners.elems).2, rfl, ?_⟩
      rw [← c.registry.registerBroker_epoch now req.brokerId]

theorem heartbeat_epochOf (c : Controller) (now : Int) (req : Wire.BrokerHeartbeatRequest) (id : Int32) :
    (c.handleBrokerHeartbeat now req).1.registry.epochOf id = c.registry.epochOf id := by
  unfold handleBrokerHeartbeat
  split
  · rfl
  · have kept := c.registry.epochOf_validateAndUpdate now req.brokerId id req.brokerEpoch req.currentMetadataOffset
    split
    · rename_i registry _ result
      rw [result] at kept
      exact kept
    · rename_i registry result
      rw [result] at kept
      exact kept

theorem heartbeat_stale {c : Controller} {req : Wire.BrokerHeartbeatRequest}
    (stale : c.registry.epochOf req.brokerId ≠ req.brokerEpoch) (now : Int) :
    (c.handleBrokerHeartbeat now req).1 = c ∧ (c.handleBrokerHeartbeat now req).2.errorCode ≠ 0 := by
  obtain ⟨e, rejects⟩ := c.registry.validateAndUpdate_stale now req.brokerId req.currentMetadataOffset stale
  unfold handleBrokerHeartbeat
  split
  · exact ⟨rfl, (by decide : errNotController ≠ 0)⟩
  · rw [rejects]
    exact ⟨rfl, (by decide : errStaleBrokerEpoch ≠ 0)⟩

end Controller

namespace ControllerHost

def answeredIn (s : ControllerHost) (id : Int32) (process : Nat) : List Registration :=
  s.answered.filter fun a => decide (a.id = id ∧ a.process = process)

/-- Every process counts the registrations of a broker from the epoch of its configuration. -/
structure Counted (config : ServerConfig) (id : Int32) (s : ControllerHost) : Prop where
  current : s.server.registry.epochOf id = .ofNat (config.preset id + (s.answeredIn id s.process).length)
  each : ∀ process, (s.answeredIn id process).map Registration.epoch =
    countdown (config.preset id) (s.answeredIn id process).length
  past : ∀ a ∈ s.answered, a.process ≤ s.process

variable {config : ServerConfig} {id : Int32} {s : ControllerHost}

theorem start_counted (now : Int) (files : List SegmentFiles) :
    Counted config id ⟨config.start now files, 0, []⟩ where
  current := config.registry_epochOf now id
  each := fun _ => rfl
  past := fun _ member => absurd member List.not_mem_nil

theorem register_counted (counted : Counted config id s) (now : Int) (req : Wire.BrokerRegistrationRequest) :
    Counted config id (s.act config (.register now req)) := by
  rcases s.server.registration_cases now req with ⟨same, code⟩ | ⟨host, port, registry, response⟩
  · have unchanged : s.act config (.register now req) = s := by
      simp only [act, same, if_neg code]
    rw [unchanged]
    exact counted
  · have answered : (s.act config (.register now req)).answered =
        ⟨req.brokerId, s.server.registry.epochOf req.brokerId + 1, s.process⟩ :: s.answered := by
      simp only [act, response]
      rfl
    have epoch : (s.act config (.register now req)).server.registry.epochOf id =
        if id = req.brokerId then s.server.registry.epochOf req.brokerId + 1 else s.server.registry.epochOf id := by
      rw [← BrokerRegistry.epochOf_registerBroker _ now _ _ host port, ← registry]
      rfl
    have process : (s.act config (.register now req)).process = s.process := rfl
    by_cases here : id = req.brokerId
    · have mine : (s.act config (.register now req)).answeredIn id s.process =
          ⟨req.brokerId, s.server.registry.epochOf req.brokerId + 1, s.process⟩ :: s.answeredIn id s.process := by
        unfold answeredIn
        rw [answered, List.filter_cons_of_pos (by simp [here])]
      have others : ∀ p, p ≠ s.process →
          (s.act config (.register now req)).answeredIn id p = s.answeredIn id p := by
        intro p other
        unfold answeredIn
        rw [answered, List.filter_cons_of_neg (by simpa [here] using fun same => other same.symm)]
      have next : s.server.registry.epochOf req.brokerId + 1 =
          .ofNat (config.preset id + (s.answeredIn id s.process).length + 1) := by
        rw [← here, counted.current, Int64.ofNat_add _ 1]
        rfl
      refine ⟨?_, ?_, ?_⟩
      · rw [epoch, if_pos here, next, process, mine]
        rfl
      · intro p
        by_cases now' : p = s.process
        · rw [now', mine, List.map_cons, counted.each, List.length_cons, countdown, next]
        · rw [others p now']
          exact counted.each p
      · rw [answered]
        exact List.forall_mem_cons.mpr ⟨Nat.le_refl _, counted.past⟩
    · have others : ∀ p, (s.act config (.register now req)).answeredIn id p = s.answeredIn id p := by
        intro p
        unfold answeredIn
        rw [answered, List.filter_cons_of_neg (by simpa using fun same => absurd same.symm here)]
      refine ⟨?_, ?_, ?_⟩
      · rw [epoch, if_neg here, process, others]
        exact counted.current
      · intro p
        rw [others]
        exact counted.each p
      · rw [answered]
        exact List.forall_mem_cons.mpr ⟨Nat.le_refl _, counted.past⟩

theorem act_counted (counted : Counted config id s) (a : ControllerAction) : Counted config id (s.act config a) := by
  cases a with
  | register now req => exact register_counted counted now req
  | heartbeat now req =>
    exact ⟨(s.server.heartbeat_epochOf now req id).trans counted.current, counted.each, counted.past⟩
  | restart now closed =>
    -- The new process has answered nothing yet.
    have none : (s.act config (.restart now closed)).answeredIn id (s.process + 1) = [] := by
      apply List.filter_eq_nil_iff.mpr
      intro a member both
      have process := (of_decide_eq_true both).2
      have past := counted.past a member
      omega
    refine ⟨?_, counted.each, ?_⟩
    · show (config.registry now).epochOf id =
        .ofNat (config.preset id + ((s.act config (.restart now closed)).answeredIn id (s.process + 1)).length)
      rw [none]
      exact config.registry_epochOf now id
    · exact fun a member => Nat.le_succ_of_le (counted.past a member)

theorem run_counted (run : (machine config).Run s) (id : Int32) : Counted config id s := by
  apply Machine.reached_invariant (Counted config id) _ _ run
  · rintro s ⟨now, files, rfl⟩
    exact start_counted now files
  · rintro s a s' counted _ moves
    obtain rfl := Option.some.inj moves
    exact act_counted counted a

theorem epochs_of_oneProcess (one : s.OneProcess id) {epoch : Int64} (member : epoch ∈ s.epochs id) :
    ∃ a ∈ s.answered, a.id = id ∧ s.epochs id = (s.answeredIn id a.process).map Registration.epoch := by
  obtain ⟨a, among, _⟩ := List.mem_map.mp member
  obtain ⟨inside, mine⟩ := List.mem_filter.mp among
  have mine := of_decide_eq_true mine
  refine ⟨a, inside, mine, ?_⟩
  unfold epochs answeredIn
  congr 1
  apply List.filter_congr
  intro b there
  by_cases same : b.id = id
  · simp [same, one b there a inside same mine]
  · simp [same]

theorem epochs_countdown (counted : Counted config id s) (one : s.OneProcess id) :
    s.epochs id = countdown (config.preset id) (s.epochs id).length := by
  cases listed : s.epochs id with
  | nil => rfl
  | cons epoch rest =>
    have newest : epoch ∈ s.epochs id := by rw [listed]; exact List.mem_cons_self
    obtain ⟨a, _, _, mine⟩ := epochs_of_oneProcess one newest
    rw [← listed, mine, counted.each, ← counted.each, List.length_map]
    exact counted.each a.process

theorem oneProcess_of_increasing (counted : Counted config id s) (increasing : (s.epochs id).Pairwise (· > ·)) :
    s.OneProcess id := by
  have first : ∀ a ∈ s.answered, a.id = id → ∃ b ∈ s.answered.filter (fun a => decide (a.id = id)),
      b.process = a.process ∧ b.epoch = .ofNat (config.preset id + 1) := by
    intro a member mine
    have inside : a ∈ s.answeredIn id a.process := List.mem_filter.mpr ⟨member, decide_eq_true ⟨mine, rfl⟩⟩
    have lowest := first_mem_countdown (config.preset id) (List.length_pos_of_mem inside)
    rw [← counted.each, List.mem_map] at lowest
    obtain ⟨b, among, epoch⟩ := lowest
    obtain ⟨there, both⟩ := List.mem_filter.mp among
    obtain ⟨same, process⟩ := of_decide_eq_true both
    exact ⟨b, List.mem_filter.mpr ⟨there, decide_eq_true same⟩, process, epoch⟩
  intro a inA b inB mineA mineB
  obtain ⟨a', memberA, processA, epochA⟩ := first a inA mineA
  obtain ⟨b', memberB, processB, epochB⟩ := first b inB mineB
  have distinct : ((s.answered.filter fun a => decide (a.id = id)).map Registration.epoch).Nodup :=
    List.Pairwise.imp (fun above same => by rw [same] at above; exact Int64.lt_irrefl above) increasing
  have same : a' = b' := List.inj_on_of_nodup_map distinct memberA memberB (epochA.trans epochB.symm)
  rw [← processA, ← processB, same]

theorem stale_of_earlier (counted : Counted config id s) (one : s.OneProcess id)
    (fits : config.preset id + (s.epochs id).length < 2 ^ 63) {epoch : Int64} (earlier : epoch ∈ (s.epochs id).tail) :
    s.server.registry.epochOf id ≠ epoch := by
  obtain ⟨a, member, mine, listed⟩ := epochs_of_oneProcess one (List.mem_of_mem_tail earlier)
  rw [listed, counted.each] at earlier
  rw [listed, List.length_map] at fits
  intro same
  rw [counted.current] at same
  by_cases current : a.process = s.process
  · -- The process is the one that answered: the registry has the newest epoch.
    rw [current] at earlier fits
    generalize (s.answeredIn id s.process).length = n at earlier fits same
    cases n with
    | zero => cases earlier
    | succ n =>
      obtain ⟨k, below, rfl⟩ := mem_countdown (show epoch ∈ countdown (config.preset id) n from earlier)
      exact absurd same.symm (Int64.ne_of_lt (epoch_lt (by omega) (by omega)))
  · -- A later process has answered no registration of the broker.
    have none : s.answeredIn id s.process = [] := by
      apply List.filter_eq_nil_iff.mpr
      intro b inside both
      obtain ⟨mineB, process⟩ := of_decide_eq_true both
      exact current ((one a member b inside mine mineB).trans process)
    obtain ⟨k, below, rfl⟩ := mem_countdown (List.mem_of_mem_tail earlier)
    rw [none] at same
    exact absurd same (Int64.ne_of_lt (epoch_lt (by rw [List.length_nil]; omega) (by omega)))

/-- A broker is fenced exactly as long as one process answers all its registrations. -/
theorem epochs_fenced_iff (run : (machine config).Run s) (id : Int32) :
    s.Fences id ↔ s.OneProcess id ∧ config.preset id + (s.epochs id).length < 2 ^ 63 := by
  have counted := run_counted run id
  have decreasing := countdown_decreasing (config.preset_le id) (s.epochs id).length
  constructor
  · intro fences
    have one := oneProcess_of_increasing counted fences.increasing
    rw [← epochs_countdown counted one] at decreasing
    exact ⟨one, decreasing.mp fences.increasing⟩
  · rintro ⟨one, fits⟩
    rw [← epochs_countdown counted one] at decreasing
    refine ⟨decreasing.mpr fits, ?_, ?_⟩
    · intro epoch earlier now offset
      exact s.server.registry.validateAndUpdate_stale now id offset (stale_of_earlier counted one fits earlier)
    · rintro req rfl earlier now
      exact Controller.heartbeat_stale (stale_of_earlier counted one fits earlier) now

def twoBrokers : ServerConfig := ⟨1, [107], 9092, [⟨2, some ([107], 9093)⟩], by decide⟩

def register2 : ControllerAction :=
  .register 0 ⟨2, ⟨[], Nat.zero_le _⟩, .copy [], .nil, .nil, none⟩

theorem registered_twice_fenced : ∃ s, (machine twoBrokers).Run s ∧ s.epochs 2 = [3, 2] ∧ s.Fences 2 := by
  obtain ⟨s, run, checked⟩ := Machine.exec_reaches (machine twoBrokers) (fun _ _ => True) (fun _ _ => true)
    (fun _ _ _ => trivial) (s := ⟨twoBrokers.start 0 [], 0, []⟩) [register2, register2]
    (fun s => decide (s.answered = [⟨2, 3, 0⟩, ⟨2, 2, 0⟩])) ⟨0, [], rfl⟩ (by decide +kernel)
  have answered := of_decide_eq_true checked
  have listed : s.epochs 2 = [3, 2] := by
    unfold epochs
    rw [answered]
    rfl
  refine ⟨s, run, listed, (epochs_fenced_iff run 2).mpr ⟨?_, ?_⟩⟩
  · unfold OneProcess
    rw [answered]
    decide
  · rw [listed]
    decide

/-- After a restart the broker gets the epoch of its earlier registration again, and a heartbeat of the earlier
registration is accepted. -/
theorem registered_again_not_fenced : ∃ s, (machine twoBrokers).Run s ∧ s.epochs 2 = [2, 2] ∧ ¬ s.Fences 2 ∧
    (s.server.registry.validateAndUpdate 0 2 2 0).2 = none := by
  obtain ⟨s, run, checked⟩ := Machine.exec_reaches (machine twoBrokers) (fun _ _ => True) (fun _ _ => true)
    (fun _ _ _ => trivial) (s := ⟨twoBrokers.start 0 [], 0, []⟩) [register2, .restart 1 true, register2]
    (fun s => decide (s.epochs 2 = [2, 2] ∧ (s.server.registry.validateAndUpdate 0 2 2 0).2 = none))
    ⟨0, [], rfl⟩ (by decide +kernel)
  obtain ⟨listed, accepted⟩ := of_decide_eq_true checked
  refine ⟨s, run, listed, ?_, accepted⟩
  intro fences
  have increasing := fences.increasing
  rw [listed] at increasing
  exact absurd increasing (by decide)

end ControllerHost

end KafGo.Server
