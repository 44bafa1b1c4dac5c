import KafGo.Lib.Bytes
import KafGo.Lib.Keyed
import KafGo.Lib.Machine
import KafGo.Lib.Mailbox

/-!
# The group coordinator

`GroupStore` together with what it uses of the runtime: timers, the callbacks of expired timers that wait for
the lock, and the channels on which `JoinGroup` and `SyncGroup` hand out their results. Every operation runs
under the lock of the store. The callback of a rebalance timer reads the generation of its group before it
asks for the lock, and stopping a timer does not recall a callback that is already on its way.

A timer may expire at any time once it is armed; the clients choose the durations.
-/

namespace KafGo.Group
open Lib

def errIllegalGeneration : Int := 22
def errUnknowMemberId : Int := 25
def errRebalanceInProgress : Int := 27
def errGroupIdNotFound : Int := 69
def errMemberIdRequired : Int := 79

def heartbeatOK : Int := 0
def heartbeatIllegalGeneration : Int := 22
def heartbeatUnknowMember : Int := 25
def heartbeatRebalanceInProcess : Int := 27

def joinGroupProtocolNameRoundrobin : String := "roundrobin"

def second : Int := 1000000000
def minute : Int := 60 * second

inductive GroupState where
  | empty
  | preparingRebalance
  | completingRebalance
  | stable
  | dead
  deriving DecidableEq, Repr

abbrev Assignments := String → Option Bytes

def Assignments.get (a : Assignments) (memberId : String) : Bytes := (a memberId).getD []

structure GroupMemberMetadata where
  memberId : String
  groupInstanceId : String
  sessionTimeout : Int
  rebalanceTimeout : Int
  metadata : Bytes
  sessionTimer : Option Nat
  evicted : Bool

structure PendingJoin where
  memberId : String
  resultCh : Nat

/-- `requested` is the generation of the request, which the code does not keep. -/
structure PendingSync where
  memberId : String
  resultSync : Nat
  requested : Int

structure JoinMember where
  memberId : String
  groupInstanceId : String
  metadata : Bytes
  deriving DecidableEq

structure JoinResult where
  generationId : Int
  leaderId : String
  protocolName : String
  members : List JoinMember
  err : Option Int
  deriving DecidableEq

structure SyncResult where
  assignment : Bytes
  err : Option Int
  deriving DecidableEq

/-- `rebalances` counts the calls of `transitionToPrepareRebalance`. The code does not keep it;
`GenerationId` is this number in 32 bits. -/
structure GroupMeta where
  groupId : String
  state : GroupState
  generationId : Int
  leaderId : String
  protocolName : String
  members : List GroupMemberMetadata
  pendingJoins : List PendingJoin
  pendingSyncs : List PendingSync
  leaderAssignment : Option Assignments
  rebalanceTimer : Option Nat
  rebalances : Nat

/-- The join results handed out when a barrier closed, with the members of the group at that moment. `round` is
the number of rebalances so far. -/
structure Delivery where
  group : Nat
  round : Nat
  generationId : Int
  leaderId : String
  members : List JoinMember
  results : List (String × JoinResult)
  agreed : ∀ r ∈ results, r.2.generationId = generationId ∧ r.2.leaderId = leaderId

structure Submission where
  group : Nat
  round : Nat
  generationId : Int
  memberId : String
  assignments : Assignments

/-- A sync result that was handed out. `generationId` is the one of the request. -/
structure Answer where
  group : Nat
  round : Nat
  generationId : Int
  memberId : String
  result : SyncResult

structure History where
  deliveries : List Delivery
  submissions : List Submission
  answers : List Answer

/-- Groups are objects on a heap, which callbacks may still refer to after the map has dropped them. -/
structure GroupStore where
  groups : String → Option Nat
  heap : List GroupMeta
  joinChs : List (Mailbox JoinResult)
  syncChs : List (Mailbox SyncResult)
  history : History

/-- What the callback of a timer does next. `rebalance` has not read the generation yet. -/
inductive Callback where
  | evict (groupId memberId : String)
  | rebalance (group : Nat)
  | timeout (groupId : String) (expectedGeneration : Int)
  | cleanup (groupId : String)
  deriving DecidableEq

structure Timer where
  callback : Callback
  duration : Int
  armed : Bool

structure GroupHost where
  store : GroupStore
  timers : List Timer
  callbacks : List Callback
  panicked : Bool

def newGroupStore : GroupStore := ⟨fun _ => none, [], [], [], ⟨[], [], []⟩⟩

def newHost : GroupHost := ⟨newGroupStore, [], [], false⟩

namespace GroupMeta

def memberIds (g : GroupMeta) : List String := g.members.map (·.memberId)

def member (g : GroupMeta) (memberId : String) : Option GroupMemberMetadata :=
  lookupKey (·.memberId) g.members memberId

def putMember (g : GroupMeta) (member : GroupMemberMetadata) : GroupMeta :=
  { g with members := insertKey (·.memberId) g.members member }

def deleteMember (g : GroupMeta) (memberId : String) : GroupMeta :=
  { g with members := deleteKey (·.memberId) g.members memberId }

def joined (g : GroupMeta) (memberId : String) : Bool := g.pendingJoins.any fun pj => decide (pj.memberId = memberId)

def maxRebalanceTimeout (g : GroupMeta) : Int :=
  g.members.foldl (fun maxTimeOut mem => if mem.rebalanceTimeout > maxTimeOut then mem.rebalanceTimeout else maxTimeOut)
    (3 * second)

def startsRebalance (g : GroupMeta) : Bool :=
  decide (g.state = .stable) || decide (g.state = .empty) || decide (g.state = .dead)

end GroupMeta

def newGroup (groupId protocolName : String) : GroupMeta where
  groupId := groupId
  state := .empty
  generationId := 0
  leaderId := ""
  protocolName := protocolName
  members := []
  pendingJoins := []
  pendingSyncs := []
  leaderAssignment := none
  rebalanceTimer := none
  rebalances := 0

namespace GroupStore

def write (s : GroupStore) (p : Nat) (g : GroupMeta) : GroupStore := { s with heap := s.heap.set p g }

def create (s : GroupStore) (g : GroupMeta) : GroupStore :=
  { s with groups := Function.update s.groups g.groupId (some s.heap.length), heap := s.heap ++ [g] }

def group (s : GroupStore) (groupId : String) : Option (Nat × GroupMeta) :=
  (s.groups groupId).bind fun p => (s.heap[p]?).map fun g => (p, g)

end GroupStore

namespace GroupHost

def write (h : GroupHost) (p : Nat) (g : GroupMeta) : GroupHost := { h with store := h.store.write p g }

/-- The new timer is the last one of the list. -/
def afterFunc (h : GroupHost) (duration : Int) (callback : Callback) : GroupHost :=
  { h with timers := h.timers ++ [⟨callback, duration, true⟩] }

def stop (h : GroupHost) (timer : Nat) : GroupHost :=
  { h with timers := h.timers.modify timer fun t => { t with armed := false } }

def reset (h : GroupHost) (timer : Nat) (duration : Int) : GroupHost :=
  { h with timers := h.timers.modify timer fun t => { t with duration := duration, armed := true } }

def stopIfSet (h : GroupHost) (timer : Option Nat) : GroupHost :=
  match timer with
  | none => h
  | some k => h.stop k

def resetSessionTimer (h : GroupHost) (groupId : String) (member : GroupMemberMetadata) :
    GroupHost × GroupMemberMetadata :=
  match member.sessionTimer with
  | none =>
    (h.afterFunc member.sessionTimeout (.evict groupId member.memberId),
      { member with sessionTimer := some h.timers.length })
  | some k => (h.reset k member.sessionTimeout, member)

def scheduleGroupCleanup (h : GroupHost) (groupId : String) : GroupHost :=
  h.afterFunc (5 * minute) (.cleanup groupId)

/-! ### Rebalances -/

end GroupHost

namespace GroupMeta

/-- The group as `transitionToPrepareRebalance` leaves it, with its new timer. -/
def prepared (g : GroupMeta) (timer : Nat) : GroupMeta :=
  { g with
    state := .preparingRebalance
    generationId := wrapSigned 32 (g.generationId + 1)
    leaderId := ""
    protocolName := ""
    leaderAssignment := none
    pendingJoins := []
    pendingSyncs := []
    rebalanceTimer := some timer
    rebalances := g.rebalances + 1 }

def closed (g : GroupMeta) (leaderId : String) : GroupMeta :=
  { g with
    leaderId := leaderId
    protocolName := joinGroupProtocolNameRoundrobin
    state := .completingRebalance
    pendingJoins := [] }

def allMembers (g : GroupMeta) : List JoinMember :=
  g.members.map fun member => ⟨member.memberId, member.groupInstanceId, member.metadata⟩

def joinResult (g : GroupMeta) (leaderId memberId : String) : JoinResult where
  generationId := g.generationId
  leaderId := leaderId
  protocolName := joinGroupProtocolNameRoundrobin
  members := if memberId = leaderId then g.allMembers else []
  err := none

def parkJoin (g : GroupMeta) (memberId : String) (resultCh : Nat) : GroupMeta :=
  { g with pendingJoins := g.pendingJoins ++ [⟨memberId, resultCh⟩] }

def parkSync (g : GroupMeta) (memberId : String) (requested : Int) (resultSync : Nat) : GroupMeta :=
  { g with pendingSyncs := g.pendingSyncs ++ [⟨memberId, resultSync, requested⟩] }

/-- Only members with a parked join are kept. -/
def expired (g : GroupMeta) : GroupMeta := { g with members := g.members.filter fun m => g.joined m.memberId }

def assigned (g : GroupMeta) (assignments : Assignments) : GroupMeta :=
  { g with leaderAssignment := some assignments, pendingSyncs := [], state := .stable }

end GroupMeta

def GroupMeta.delivery (g : GroupMeta) (p : Nat) (leaderId : String) : Delivery where
  group := p
  round := g.rebalances
  generationId := g.generationId
  leaderId := leaderId
  members := g.allMembers
  results := g.pendingJoins.map fun pj => (pj.memberId, g.joinResult leaderId pj.memberId)
  agreed := by
    intro r member
    obtain ⟨pj, _, rfl⟩ := List.mem_map.mp member
    exact ⟨rfl, rfl⟩

def Assignments.result (a : Assignments) (memberId : String) : SyncResult := ⟨a.get memberId, none⟩

namespace History

def deliver (history : History) (d : Delivery) : History := { history with deliveries := history.deliveries ++ [d] }

def submit (history : History) (b : Submission) : History := { history with submissions := history.submissions ++ [b] }

/-- A request is the id of a member and the generation that it named. -/
def answer (history : History) (p : Nat) (g : GroupMeta) (a : Assignments) (requests : List (String × Int)) : History :=
  { history with
    answers := history.answers ++ requests.map fun q => ⟨p, g.rebalances, q.2, q.1, a.result q.1⟩ }

end History

namespace GroupStore

def deliver (s : GroupStore) (p : Nat) (g : GroupMeta) (leaderId : String) : GroupStore :=
  { s with
    joinChs := sendAll s.joinChs (g.pendingJoins.map fun pj => (pj.resultCh, g.joinResult leaderId pj.memberId))
    history := s.history.deliver (g.delivery p leaderId) }

def openJoin (s : GroupStore) (p : Nat) : GroupStore := { s with joinChs := s.joinChs ++ [⟨p, []⟩] }

/-- The leader's assignment: its own result, and those of all parked syncs. -/
def submit (s : GroupStore) (p : Nat) (g : GroupMeta) (memberId : String) (requested : Int) (a : Assignments) :
    GroupStore :=
  { s with
    heap := s.heap.set p (g.assigned a)
    syncChs := sendAll (s.syncChs ++ [⟨p, [a.result memberId]⟩])
      (g.pendingSyncs.map fun ps => (ps.resultSync, a.result ps.memberId))
    history := (s.history.submit ⟨p, g.rebalances, g.generationId, memberId, a⟩).answer p g a
      ((memberId, requested) :: g.pendingSyncs.map fun ps => (ps.memberId, ps.requested)) }

/-- A sync that comes when the assignment is known. -/
def reply (s : GroupStore) (p : Nat) (g : GroupMeta) (memberId : String) (requested : Int) (a : Assignments) :
    GroupStore :=
  { s with
    syncChs := s.syncChs ++ [⟨p, [a.result memberId]⟩]
    history := s.history.answer p g a [(memberId, requested)] }

def parkSync (s : GroupStore) (p : Nat) (g : GroupMeta) (memberId : String) (requested : Int) : GroupStore :=
  { s with
    heap := s.heap.set p (g.parkSync memberId requested s.syncChs.length)
    syncChs := s.syncChs ++ [⟨p, []⟩] }

def delete (s : GroupStore) (groupId : String) : GroupStore :=
  { s with groups := Function.update s.groups groupId none }

end GroupStore

namespace GroupHost

def transitionToPrepareRebalance (h : GroupHost) (p : Nat) (g : GroupMeta) : GroupHost × GroupMeta :=
  let h := h.stopIfSet g.rebalanceTimer
  (h.afterFunc g.maxRebalanceTimeout (.rebalance p), g.prepared h.timers.length)

def maybeCloseJoinBarrier (h : GroupHost) (p : Nat) (g : GroupMeta) : GroupHost × GroupMeta :=
  if g.state ≠ .preparingRebalance then (h, g)
  else if g.pendingJoins.length ≠ g.members.length then (h, g)
  else match g.pendingJoins with
    -- `pendingJoins[0]` of an empty list.
    | [] => ({ h with panicked := true }, g)
    | first :: _ =>
      let h := h.stopIfSet g.rebalanceTimer
      ({ h with store := h.store.deliver p g first.memberId }, g.closed first.memberId)

/-- The common end of `LeaveGroup` and `evictMember`. -/
def dropMember (h : GroupHost) (p : Nat) (g : GroupMeta) (memberId : String) : GroupHost :=
  let g := g.deleteMember memberId
  if g.members.length = 0 then (h.scheduleGroupCleanup g.groupId).write p { g with state := .dead }
  else
    let (h, g) := h.transitionToPrepareRebalance p g
    h.write p g

def evictMember (h : GroupHost) (groupId memberId : String) : GroupHost :=
  match h.store.group groupId with
  | none => h
  | some (p, g) => match g.member memberId with
    | none => h
    | some member => if member.evicted then h else h.dropMember p g memberId

def onRebalanceTimeout (h : GroupHost) (groupId : String) (expectedGeneration : Int) : GroupHost :=
  match h.store.group groupId with
  | none => h
  | some (p, g) =>
    if g.generationId ≠ expectedGeneration then h
    else
      let late := g.members.filter fun m => !g.joined m.memberId
      -- `Stop` on a nil timer.
      if late.any (fun m => m.sessionTimer.isNone) then { h with panicked := true }
      else
        let h := late.foldl (fun h m => h.stopIfSet m.sessionTimer) h
        let (h, g) := h.maybeCloseJoinBarrier p g.expired
        h.write p g

/-- The callback of `scheduleGroupCleanup`. -/
def cleanup (h : GroupHost) (groupId : String) : GroupHost :=
  match h.store.group groupId with
  | none => h
  | some (_, g) =>
    if g.state = .dead then { h with store := h.store.delete groupId } else h

end GroupHost

structure JoinRequest where
  groupId : String
  memberId : String
  groupInstanceId : String
  protocolName : String
  metadata : Bytes
  sessionTimeout : Int
  rebalanceTimeout : Int

def JoinRequest.newMember (q : JoinRequest) : GroupMemberMetadata where
  memberId := q.memberId
  groupInstanceId := q.groupInstanceId
  sessionTimeout := q.sessionTimeout
  rebalanceTimeout := q.rebalanceTimeout
  metadata := []
  sessionTimer := none
  evicted := false

/-- The member of a join, made if there is none, with the metadata of the request. -/
def GroupMeta.joining (g : GroupMeta) (q : JoinRequest) : GroupMemberMetadata :=
  { (g.member q.memberId).getD q.newMember with metadata := q.metadata }

structure SyncRequest where
  groupId : String
  memberId : String
  generationId : Int
  assignments : Option Assignments

/-- The assignments as `HandleSyncGroupApi` passes them on: nil for an empty list, later entries win. -/
def syncAssignments (entries : List (String × Bytes)) : Option Assignments :=
  if entries.length > 0 then
    some (entries.foldl (fun assignments a => Function.update assignments a.1 (some a.2)) fun _ => none)
  else none

namespace GroupHost

def heartbeat (h : GroupHost) (groupId memberId : String) (generationId : Int) : GroupHost × Int :=
  match h.store.group groupId with
  | none => (h, heartbeatUnknowMember)
  | some (p, g) => match g.member memberId with
    | none => (h, heartbeatUnknowMember)
    | some member =>
      if generationId ≠ g.generationId then (h, heartbeatIllegalGeneration)
      else
        let (h, member) := h.resetSessionTimer g.groupId member
        (h.write p (g.putMember member),
          if g.state = .preparingRebalance ∨ g.state = .completingRebalance then heartbeatRebalanceInProcess
          else heartbeatOK)

def findOrCreate (h : GroupHost) (groupId protocolName : String) : GroupHost × Nat × GroupMeta :=
  match h.store.group groupId with
  | some (p, g) => (h, p, g)
  | none =>
    ({ h with store := h.store.create (newGroup groupId protocolName) }, h.store.heap.length,
      newGroup groupId protocolName)

def enrol (h : GroupHost) (g : GroupMeta) (q : JoinRequest) : GroupHost × GroupMeta :=
  let (h, member) := h.resetSessionTimer g.groupId (g.joining q)
  (h, g.putMember member)

def park (h : GroupHost) (p : Nat) (g : GroupMeta) (memberId : String) : GroupHost × GroupMeta :=
  { h with store := h.store.openJoin p }.maybeCloseJoinBarrier p (g.parkJoin memberId h.store.joinChs.length)

/-- The result is the channel on which the caller waits, or an error code. -/
def joinGroup (h : GroupHost) (q : JoinRequest) : GroupHost × Except Int Nat :=
  let (h, p, g) := h.findOrCreate q.groupId q.protocolName
  if q.memberId = "" then (h, .error errMemberIdRequired)
  else
    let (h, g) := h.enrol g q
    let (h, g) := if g.startsRebalance then h.transitionToPrepareRebalance p g else (h, g)
    let resultCh := h.store.joinChs.length
    let (h, g) := h.park p g q.memberId
    (h.write p g, .ok resultCh)

def leaveGroup (h : GroupHost) (groupId memberId : String) : GroupHost × Option Int :=
  match h.store.group groupId with
  | none => (h, some errGroupIdNotFound)
  | some (p, g) => match g.member memberId with
    | none => (h, some errUnknowMemberId)
    | some member => match member.sessionTimer with
      -- `Stop` on a nil timer.
      | none => ({ h with panicked := true }, none)
      | some k => ((h.stop k).dropMember p g memberId, none)

def syncGroup (h : GroupHost) (q : SyncRequest) : GroupHost × Except Int Nat :=
  match h.store.group q.groupId with
  | none => (h, .error errGroupIdNotFound)
  | some (p, g) =>
    if q.generationId ≠ g.generationId then (h, .error errIllegalGeneration)
    else if g.state ≠ .completingRebalance then (h, .error errRebalanceInProgress)
    else
      let resultCh := h.store.syncChs.length
      match (if q.memberId = g.leaderId then q.assignments else none) with
      | some a => ({ h with store := h.store.submit p g q.memberId q.generationId a }, .ok resultCh)
      | none => match g.leaderAssignment with
        | some a => ({ h with store := h.store.reply p g q.memberId q.generationId a }, .ok resultCh)
        | none => ({ h with store := h.store.parkSync p g q.memberId q.generationId }, .ok resultCh)

end GroupHost

/-- `fire` is the expiry of a timer, `read` the first step of the callback of a rebalance timer, and `run`
the rest of a callback, under the lock. -/
inductive GroupAction where
  | heartbeat (groupId memberId : String) (generationId : Int)
  | joinGroup (q : JoinRequest)
  | leaveGroup (groupId memberId : String)
  | syncGroup (q : SyncRequest)
  | fire (timer : Nat)
  | read (callback : Nat)
  | run (callback : Nat)

def GroupHost.runCallback (h : GroupHost) : Callback → Option GroupHost
  | .evict groupId memberId => some (h.evictMember groupId memberId)
  | .timeout groupId expectedGeneration => some (h.onRebalanceTimeout groupId expectedGeneration)
  | .cleanup groupId => some (h.cleanup groupId)
  | .rebalance _ => none

def GroupHost.fire (h : GroupHost) (timer : Nat) : Option GroupHost :=
  match h.timers[timer]? with
  | none => none
  | some t => if t.armed then some { h.stop timer with callbacks := h.callbacks ++ [t.callback] } else none

def GroupHost.read (h : GroupHost) (callback : Nat) : Option GroupHost :=
  match h.callbacks[callback]? with
  | none => none
  | some (.rebalance p) => (h.store.heap[p]?).map fun g =>
    { h with callbacks := h.callbacks.set callback (.timeout g.groupId g.generationId) }
  | some _ => none

def step (a : GroupAction) (h : GroupHost) : Option GroupHost :=
  if h.panicked then none
  else match a with
    | .heartbeat groupId memberId generationId => some (h.heartbeat groupId memberId generationId).1
    | .joinGroup q => some (h.joinGroup q).1
    | .leaveGroup groupId memberId => some (h.leaveGroup groupId memberId).1
    | .syncGroup q => some (h.syncGroup q).1
    | .fire timer => h.fire timer
    | .read callback => h.read callback
    | .run callback => (h.callbacks[callback]?).bind fun c =>
      ({ h with callbacks := h.callbacks.eraseIdx callback }).runCallback c

def machine : Machine GroupHost GroupAction where
  start h := h = newHost
  step := step

end KafGo.Group
