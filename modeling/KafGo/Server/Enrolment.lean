import KafGo.Server.BrokerRegister

/-!
# Epochs and connections

A connection brings one registration to the controller, and heartbeats behind it only with the epoch of the answer. So
the epoch of a heartbeat says on which connection it came, although a restart of the controller gives out the same
epochs again: connections do not survive it.
-/

namespace KafGo.Server
open Lib Scanner Coordinator Protocol Storage Wire

/-! ### Epochs on a connection -/

theorem BrokerRegistry.validateAndUpdate_none_iff (r : BrokerRegistry) (now : Int) (id : Int32) {epoch : Int64}
    (offset : Int64) (some : epoch ≠ 0) :
    (r.validateAndUpdate now id epoch offset).2 = none ↔ r.epochOf id = epoch := by
  constructor
  · intro accepted
    by_contra stale
    obtain ⟨e, rejected⟩ := r.validateAndUpdate_stale now id offset stale
    rw [rejected] at accepted
    cases accepted
  · intro same
    unfold validateAndUpdate
    unfold epochOf at same
    cases here : r.info id with
    | none =>
      rw [here] at same
      exact absurd same.symm some
    | some found =>
      rw [here] at same
      have same : found.epoch = epoch := same
      dsimp only
      rw [if_neg (not_not.mpr same)]

def registrations (handled : List (Int32 × Nat)) (id : Int32) : Nat := handled.countP fun x => decide (x.1 = id)

/-- A registration on a connection was handled, and this is the epoch of its answer. -/
def Granted (config : ServerConfig) (handled : List (Int32 × Nat)) (k : Nat) (id : Int32) (epoch : Int64) : Prop :=
  ∃ newer older, handled = newer ++ (id, k) :: older ∧ epoch = .ofNat (config.preset id + registrations older id + 1)

def Turn.Fits (id : Int32) (granted : Int64 → Prop) (asking : Prop) : Turn → Prop
  | .reading | .closed => True
  | .registering _ _ => False
  | .recording _ _ epoch => granted epoch
  | .validating _ req | .reporting _ req => ¬ asking ∧ req.brokerId = id ∧ granted req.brokerEpoch

def RequestFits (id : Int32) (granted : Int64 → Prop) (framing : Bytes) : Prop :=
  ∃ correlationId req, framing = heartbeatFrame correlationId req ∧ req.brokerId = id ∧ granted req.brokerEpoch

def ReplyFits (granted : Int64 → Prop) (asking : Prop) (framing : Bytes) : Prop :=
  ∃ correlationId,
    (∃ resp : BrokerRegistrationResponse, framing = replyFrame correlationId resp.encode ∧
      (resp.errorCode = 0 → granted resp.brokerEpoch)) ∨
    ¬ asking ∧ ∃ resp : BrokerHeartbeatResponse, framing = replyFrame correlationId resp.encode

/-- A connection with a controller behind it carries one registration. All that comes later has the epoch of its
answer. `asking` says that its registrar waits for that answer. -/
inductive Uplink.Fits (handled : List (Int32 × Nat)) (k : Nat) (id : Int32) (granted : Int64 → Prop) (asking : Prop)
    (link : Uplink) : Prop where
  | asked {correlationId : Int32} {req : BrokerRegistrationRequest}
      (requests : link.requests = [registrationFrame correlationId req]) (own : req.brokerId = id)
      (turn : link.turn = .reading) (replies : link.replies = []) (new : ∀ x ∈ handled, x.2 ≠ k)
  | registering {correlationId : Int32} {req : BrokerRegistrationRequest} (requests : link.requests = [])
      (own : req.brokerId = id) (turn : link.turn = .registering correlationId req) (replies : link.replies = [])
      (new : ∀ x ∈ handled, x.2 ≠ k)
  | served (requests : ∀ framing ∈ link.requests, ¬ asking ∧ RequestFits id granted framing)
      (turn : link.turn.Fits id granted asking) (replies : ∀ framing ∈ link.replies, ReplyFits granted asking framing)

section Epochs

variable {config : ServerConfig} {handled : List (Int32 × Nat)} {k : Nat} {id : Int32} {epoch : Int64}

theorem Granted.mem (granted : Granted config handled k id epoch) : (id, k) ∈ handled := by
  obtain ⟨newer, older, rfl, _⟩ := granted
  exact List.mem_append_right _ List.mem_cons_self

theorem Granted.ne_zero (granted : Granted config handled k id epoch) (few : handled.length + 1 < 2 ^ 63) :
    epoch ≠ 0 := by
  obtain ⟨newer, older, rfl, rfl⟩ := granted
  have small := config.preset_le id
  have bound : registrations older id ≤ older.length := List.countP_le_length
  rw [List.length_append, List.length_cons] at few
  exact (Int64.ne_of_lt (epoch_lt (Nat.succ_pos _) (by omega))).symm

theorem Granted.append (more : List (Int32 × Nat)) (granted : Granted config handled k id epoch) :
    Granted config (more ++ handled) k id epoch := by
  obtain ⟨newer, older, rfl, same⟩ := granted
  exact ⟨more ++ newer, older, (List.append_assoc ..).symm, same⟩

/-- The registry has the epoch of a connection exactly if no registration of the broker came after it. -/
theorem Granted.newest_iff (granted : Granted config handled k id epoch) (once : (handled.map Prod.snd).Nodup)
    (few : handled.length + 1 < 2 ^ 63) :
    Int64.ofNat (config.preset id + registrations handled id) = epoch ↔
      (handled.find? fun x => decide (x.1 = id)).map Prod.snd = some k := by
  obtain ⟨newer, older, rfl, rfl⟩ := granted
  have small := config.preset_le id
  have total : registrations (newer ++ (id, k) :: older) id =
    registrations newer id + (registrations older id + 1) := by
    simp [registrations, List.countP_append]
  have bound : registrations (newer ++ (id, k) :: older) id ≤ (newer ++ (id, k) :: older).length :=
    List.countP_le_length
  rw [List.find?_append]
  cases first : newer.find? fun x => decide (x.1 = id) with
  | none =>
    have none : registrations newer id = 0 := by
      rw [registrations, List.countP_eq_zero]
      exact List.find?_eq_none.mp first
    rw [total, none]
    simp [Nat.add_assoc]
  | some x =>
    have inside := List.mem_of_find?_eq_some first
    have chosen := List.find?_some first
    have later : 0 < registrations newer id := List.countP_pos_iff.mpr ⟨x, inside, chosen⟩
    have less : config.preset id + registrations older id + 1 <
        config.preset id + registrations (newer ++ (id, k) :: older) id := by
      omega
    constructor
    · intro same
      exact absurd same.symm (Int64.ne_of_lt (epoch_lt less (by omega)))
    · intro same
      have same : x.2 = k := by simpa using same
      rw [List.map_append, List.nodup_append] at once
      exact absurd same (once.2.2 x.2 (List.mem_map_of_mem inside) k (by simp))

theorem Uplink.Fits.mono {handled handled' : List (Int32 × Nat)} {granted granted' : Int64 → Prop}
    {asking asking' : Prop} {link : Uplink} (new : (∀ x ∈ handled, x.2 ≠ k) → ∀ x ∈ handled', x.2 ≠ k)
    (wider : ∀ epoch, granted epoch → granted' epoch) (narrower : asking' → asking)
    (fits : link.Fits handled k id granted asking) : link.Fits handled' k id granted' asking' := by
  cases fits with
  | asked requests own turn replies fresh => exact .asked requests own turn replies (new fresh)
  | registering requests own turn replies fresh => exact .registering requests own turn replies (new fresh)
  | served requests turn replies =>
    refine .served ?_ ?_ ?_
    · intro framing member
      obtain ⟨done, correlationId, req, same, own, known⟩ := requests framing member
      exact ⟨fun asks => done (narrower asks), correlationId, req, same, own, wider _ known⟩
    · cases at_turn : link.turn with
      | reading | closed => trivial
      | registering => rw [at_turn] at turn; exact turn
      | recording => rw [at_turn] at turn; exact wider _ turn
      | validating | reporting =>
        rw [at_turn] at turn
        exact ⟨fun asks => turn.1 (narrower asks), turn.2.1, wider _ turn.2.2⟩
    · intro framing member
      obtain ⟨correlationId, ⟨resp, same, known⟩ | ⟨done, resp, same⟩⟩ := replies framing member
      · exact ⟨correlationId, .inl ⟨resp, same, fun fine => wider _ (known fine)⟩⟩
      · exact ⟨correlationId, .inr ⟨fun asks => done (narrower asks), resp, same⟩⟩

theorem Uplink.Fits.reply {granted : Int64 → Prop} {asking : Prop} {link : Uplink} {correlationId : Int32}
    {body : Bytes} (requests : ∀ framing ∈ link.requests, ¬ asking ∧ RequestFits id granted framing)
    (replies : ∀ framing ∈ link.replies, ReplyFits granted asking framing)
    (fits : ReplyFits granted asking (replyFrame correlationId body)) :
    (link.reply correlationId body).Fits handled k id granted asking := by
  refine .served requests trivial ?_
  unfold Uplink.reply
  dsimp only
  split
  · exact replies
  · intro framing member
    rcases List.mem_append.mp member with before | new
    · exact replies framing before
    · exact List.mem_singleton.mp new ▸ fits

end Epochs

namespace Enrolment

structure Sound (config : ServerConfig) (s : Enrolment) : Prop where
  counted : ∀ id, s.server.registry.epochOf id = .ofNat (config.preset id + registrations s.handled id)
  once : (s.handled.map Prod.snd).Nodup
  known : ∀ x ∈ s.handled, x.2 < s.links.length
  links : ∀ k (link : Uplink), s.links[k]? = some link → ∃ br, s.registrars[link.owner]? = some br ∧
    (link.turn ≠ .closed →
      link.Fits s.handled k br.brokerID (Granted config s.handled k br.brokerID) (br.phase = .asking k))
  registrars : ∀ i br, s.registrars[i]? = some br → ∀ k, br.phase.conn = some k → ∃ link, s.links[k]? = some link ∧
    link.owner = i ∧ (br.phase ≠ .asking k → link.turn ≠ .closed →
      Granted config s.handled k br.brokerID br.brokerEpoch)

variable {config : ServerConfig} {s s' : Enrolment} {handled : List (Int32 × Nat)} {i k : Nat} {id : Int32}
  {granted : Int64 → Prop} {asking : Prop} {br br' : Registrar} {link link' : Uplink} {framing : Bytes}
    {rest : List Bytes}

theorem link_sound (sound : Sound config s) (here : s.links[k]? = some link) (server : Controller) (link' : Uplink)
    (owner : link'.owner = link.owner) (more : List (Int32 × Nat)) (mine : ∀ x ∈ more, x.2 = k)
    (counted : ∀ id, server.registry.epochOf id = .ofNat (config.preset id + registrations (more ++ s.handled) id))
    (once : ((more ++ s.handled).map Prod.snd).Nodup) (open' : link'.turn ≠ .closed → link.turn ≠ .closed)
    (fits : ∀ br, s.registrars[link.owner]? = some br → link'.turn ≠ .closed →
      link.Fits s.handled k br.brokerID (Granted config s.handled k br.brokerID) (br.phase = .asking k) → link'.Fits
        (more ++ s.handled) k br.brokerID (Granted config (more ++ s.handled) k br.brokerID) (br.phase = .asking k)) :
    Sound config { s with server := server, links := s.links.set k link', handled := more ++ s.handled } where
  counted := counted
  once := once
  known x member := by
    show x.2 < (s.links.set k link').length
    rw [List.length_set]
    rcases List.mem_append.mp member with new | before
    · exact mine x new ▸ (List.getElem?_eq_some_iff.mp here).1
    · exact sound.known x before
  links j other at_j := by
    rcases set_some here at_j with ⟨rfl, rfl⟩ | ⟨apart, at_j⟩
    · obtain ⟨br, found, before⟩ := sound.links k link here
      exact ⟨br, owner ▸ found, fun live => fits br found live (before (open' live))⟩
    · obtain ⟨br, found, before⟩ := sound.links j other at_j
      refine ⟨br, found, fun live => (before live).mono ?_ (fun _ => Granted.append more) (fun asks => asks)⟩
      intro fresh x member
      rcases List.mem_append.mp member with new | earlier
      · exact mine x new ▸ apart
      · exact fresh x earlier
  registrars i br found j conn := by
    obtain ⟨before, at_j, own, granted⟩ := sound.registrars i br found j conn
    rcases set_at here link' at_j with ⟨rfl, rfl, now⟩ | ⟨_, now⟩
    · exact ⟨link', now, owner.trans own, fun past live => (granted past (open' live)).append more⟩
    · exact ⟨before, now, own, fun past live => (granted past live).append more⟩

theorem link_steady (sound : Sound config s) (here : s.links[k]? = some link) (server : Controller) (link' : Uplink)
    (owner : link'.owner = link.owner)
    (counted : ∀ id, server.registry.epochOf id = .ofNat (config.preset id + registrations s.handled id))
    (live : link.turn ≠ .closed)
    (fits : ∀ id granted asking, link'.turn ≠ .closed → link.Fits s.handled k id granted asking →
      link'.Fits s.handled k id granted asking) :
    Sound config { s with server := server, links := s.links.set k link' } :=
  link_sound sound here server link' owner [] (List.forall_mem_nil _) counted sound.once (fun _ => live)
    fun _ _ => fits _ _ _

theorem set_sound (sound : Sound config s) (here : s.registrars[i]? = some br) (same : br'.brokerID = br.brokerID)
    (fits : ∀ k (link : Uplink), s.links[k]? = some link → link.owner = i → link.turn ≠ .closed →
      link.Fits s.handled k br.brokerID (Granted config s.handled k br.brokerID) (br'.phase = .asking k))
    (stays : ∀ k, br'.phase.conn = some k → ∃ link, s.links[k]? = some link ∧ link.owner = i ∧
      (br'.phase ≠ .asking k → link.turn ≠ .closed → Granted config s.handled k br.brokerID br'.brokerEpoch)) :
    Sound config (s.setRegistrar i br') where
  counted := sound.counted
  once := sound.once
  known := sound.known
  links k link at_k := by
    obtain ⟨owner, found, before⟩ := sound.links k link at_k
    by_cases mine : i = link.owner
    · refine ⟨br', ?_, fun live => ?_⟩
      · rw [← mine]
        exact List.getElem?_set_self (List.getElem?_eq_some_iff.mp here).1
      · rw [same]
        exact fits k link at_k mine.symm live
    · exact ⟨owner, (List.getElem?_set_ne mine).trans found, before⟩
  registrars j other at_j k conn := by
    rcases set_some here at_j with ⟨rfl, rfl⟩ | ⟨_, at_j⟩
    · rw [same]
      exact stays k conn
    · exact sound.registrars j other at_j k conn

theorem registrar_sound (sound : Sound config s) (here : s.registrars[i]? = some br)
    (same : br'.brokerID = br.brokerID) (asks : ∀ k, br'.phase = .asking k → br.phase = .asking k)
    (stays : ∀ k, br'.phase.conn = some k → br.phase.conn = some k ∧ (br'.phase ≠ .asking k → ∀ link, s.links[k]? =
      some link → link.owner = i → link.turn ≠ .closed → Granted config s.handled k br.brokerID br'.brokerEpoch)) :
    Sound config (s.setRegistrar i br') := by
  refine set_sound sound here same ?_ ?_
  · rintro k link at_k rfl live
    obtain ⟨owner, found, fits⟩ := sound.links k link at_k
    obtain rfl := Option.some.inj (here.symm.trans found)
    exact (fits live).mono (fun new => new) (fun _ known => known) (asks k)
  · intro k conn
    obtain ⟨before, granted⟩ := stays k conn
    obtain ⟨link, at_k, own, _⟩ := sound.registrars i br here k before
    exact ⟨link, at_k, own, fun past live => granted past link at_k own live⟩

/-! ### The controller's steps -/

theorem accept_owner (c : Controller) (link : Uplink) (framing : Bytes) :
    (c.accept link framing).owner = link.owner := by
  unfold Controller.accept Controller.dispatch
  repeat' split
  all_goals rfl

theorem accept_fits (reading : link.turn = .reading) (next : link.requests = framing :: rest)
    (fits : link.Fits handled k id granted asking) (c : Controller)
    (live : (c.accept { link with requests := rest } framing).turn ≠ .closed) :
    (c.accept { link with requests := rest } framing).Fits handled k id granted asking := by
  cases fits with
  | @asked correlationId req requests own turn replies new =>
    obtain ⟨rfl, rfl⟩ := List.cons.inj (next.symm.trans requests)
    have none : ∀ framing ∈ link.replies, ReplyFits granted asking framing := by
      rw [replies]
      exact fun _ => nofun
    rcases accept_registration c { link with requests := [] } correlationId req with
      closed | ⟨code, refused, replied⟩ | admitted
    · rw [closed] at live
      exact absurd rfl live
    · rw [replied]
      exact .reply (fun _ => nofun) none ⟨correlationId, .inl ⟨_, rfl, fun fine => absurd fine refused⟩⟩
    · rw [admitted]
      exact .registering rfl own rfl replies new
  | registering _ _ turn => rw [reading] at turn; cases turn
  | served requests turn replies =>
    rw [next] at requests
    obtain ⟨done, correlationId, req, rfl, own, known⟩ := requests framing List.mem_cons_self
    have later : ∀ framing ∈ rest, ¬ asking ∧ RequestFits id granted framing :=
      fun framing member => requests framing (List.mem_cons_of_mem _ member)
    rcases accept_heartbeat c { link with requests := rest } correlationId req with closed | ⟨resp, replied⟩ | admitted
    · rw [closed] at live
      exact absurd rfl live
    · rw [replied]
      exact .reply later replies ⟨correlationId, .inr ⟨done, resp, rfl⟩⟩
    · rw [admitted]
      exact .served later ⟨done, own, known⟩ replies

theorem fits_served (fits : link.Fits handled k id granted asking) (busy : link.turn ≠ .reading)
    (later : ∀ correlationId req, link.turn ≠ .registering correlationId req) :
    (∀ framing ∈ link.requests, ¬ asking ∧ RequestFits id granted framing) ∧ link.turn.Fits id granted asking ∧
      ∀ framing ∈ link.replies, ReplyFits granted asking framing := by
  cases fits with
  | asked _ _ turn => exact absurd turn busy
  | registering _ _ turn => exact absurd turn (later _ _)
  | served requests turn replies => exact ⟨requests, turn, replies⟩

theorem register_sound (sound : Sound config s) (here : s.links[k]? = some link) {correlationId : Int32}
    {req : BrokerRegistrationRequest} (turn : link.turn = .registering correlationId req) (now : Int) (host : Bytes)
    (port : Int32) (record : MetadataValue) :
    Sound config { s with
      server := { s.server with registry := (s.server.registry.registerBroker now req.brokerId host port).1 }
      links := s.links.set k { link with
        turn := .recording correlationId record (s.server.registry.registerBroker now req.brokerId host port).2 }
      handled := (req.brokerId, k) :: s.handled } := by
  obtain ⟨owner, found, fits⟩ := sound.links k link here
  have live : link.turn ≠ .closed := by rw [turn]; exact nofun
  have epoch : (s.server.registry.registerBroker now req.brokerId host port).2 =
      .ofNat (config.preset req.brokerId + registrations s.handled req.brokerId + 1) := by
    rw [BrokerRegistry.registerBroker_epoch, sound.counted, Int64.ofNat_add _ 1]
    rfl
  cases fits live with
  | asked _ _ reading => rw [turn] at reading; cases reading
  | served _ fits => rw [turn] at fits; exact fits.elim
  | @registering _ req' requests own turn' replies new =>
    obtain ⟨_, rfl⟩ := Turn.registering.inj (turn.symm.trans turn')
    refine link_sound sound here _ _ ?_ [(req.brokerId, k)] ?_ ?_ ?_ (fun _ => live) ?_
    · rfl
    · intro x member
      rw [List.mem_singleton.mp member]
    · intro id
      show (s.server.registry.registerBroker now req.brokerId host port).1.epochOf id = _
      rw [BrokerRegistry.epochOf_registerBroker]
      by_cases mine : id = req.brokerId
      · subst mine
        rw [if_pos rfl, ← BrokerRegistry.registerBroker_epoch _ now _ host port, epoch]
        simp [registrations, Nat.add_assoc]
      · rw [if_neg mine, sound.counted]
        simp [registrations, Ne.symm mine]
    · refine List.nodup_cons.mpr ⟨?_, sound.once⟩
      intro member
      obtain ⟨x, among, same⟩ := List.mem_map.mp member
      exact new x among same
    · intro br at_br _ _
      obtain rfl := Option.some.inj (found.symm.trans at_br)
      refine .served ?_ ?_ ?_
      · rw [requests]
        exact fun _ => nofun
      · rw [← own]
        exact ⟨[], s.handled, rfl, epoch⟩
      · rw [replies]
        exact fun _ => nofun

theorem serve_sound (sound : Sound config s) {now : Int} (moves : step config (.serve k now) s = some s') :
    Sound config s' := by
  obtain ⟨link, here, moves⟩ := Option.bind_eq_some_iff.mp moves
  obtain ⟨⟨server, link'⟩, served, rfl⟩ := Option.map_eq_some_iff.mp moves
  obtain ⟨owner, requests, replies, turn, broken⟩ := link
  cases turn with
  | reading =>
    cases requests with
    | nil =>
      simp only [Controller.serve, Option.ite_none_right_eq_some] at served
      obtain ⟨rfl, rfl⟩ := Prod.mk.inj (Option.some.inj served.2)
      exact link_steady sound here _ (Uplink.close _) rfl sound.counted nofun fun _ _ _ live => absurd rfl live
    | cons framing rest =>
      cases served
      refine link_steady sound here _ (s.server.accept ⟨owner, rest, replies, .reading, broken⟩ framing)
        (accept_owner _ _ _) sound.counted nofun ?_
      exact fun _ _ _ live fits => accept_fits rfl rfl fits _ live
  | registering correlationId req =>
    cases served
    exact register_sound sound here rfl now _ _ _
  | recording correlationId record epoch =>
    cases served
    refine link_steady sound here _ (Uplink.reply _ _ _) rfl sound.counted nofun fun _ _ _ _ fits => ?_
    obtain ⟨requests, granted, replies⟩ := fits_served fits nofun nofun
    exact .reply requests replies ⟨correlationId, .inl ⟨_, rfl, fun _ => granted⟩⟩
  | validating correlationId req =>
    have same := fun id => (s.server.registry.epochOf_validateAndUpdate now req.brokerId id req.brokerEpoch
      req.currentMetadataOffset).trans (sound.counted id)
    simp only [Controller.serve] at served
    generalize s.server.registry.validateAndUpdate now req.brokerId req.brokerEpoch req.currentMetadataOffset = result
      at served same
    obtain ⟨registry, error⟩ := result
    cases error with
    | some e =>
      cases served
      refine link_steady sound here { s.server with registry := registry } (Uplink.reply _ _ _) rfl same nofun
        fun _ _ _ _ fits => ?_
      obtain ⟨requests, granted, replies⟩ := fits_served fits nofun nofun
      exact .reply requests replies ⟨correlationId, .inr ⟨granted.1, _, rfl⟩⟩
    | none =>
      cases served
      refine link_steady sound here { s.server with registry := registry }
        ⟨owner, requests, replies, .reporting correlationId req, broken⟩ rfl same nofun fun _ _ _ _ fits => ?_
      obtain ⟨requests, granted, replies⟩ := fits_served fits nofun nofun
      exact .served requests granted replies
  | reporting correlationId req =>
    cases served
    refine link_steady sound here _ (Uplink.reply _ _ _) rfl sound.counted nofun fun _ _ _ _ fits => ?_
    obtain ⟨requests, granted, replies⟩ := fits_served fits nofun nofun
    exact .reply requests replies ⟨correlationId, .inr ⟨granted.1, _, rfl⟩⟩
  | closed => cases served

/-! ### The registrars' steps -/

theorem fits_shrink (turn : link'.turn = link.turn) (requests : link'.requests.Sublist link.requests)
    (replies : ∀ framing ∈ link'.replies, framing ∈ link.replies) (fits : link.Fits handled k id granted asking) :
    link'.Fits handled k id granted asking := by
  have none : link.replies = [] → link'.replies = [] := fun empty =>
    List.eq_nil_iff_forall_not_mem.mpr fun framing member => by
      have := replies framing member
      rw [empty] at this
      cases this
  cases fits with
  | asked asked own reading empty new =>
    rw [asked] at requests
    rcases List.sublist_singleton.mp requests with gone | still
    · refine .served ?_ ?_ ?_
      · rw [gone]
        exact fun _ => nofun
      · rw [turn, reading]
        trivial
      · rw [none empty]
        exact fun _ => nofun
    · exact .asked still own (turn.trans reading) (none empty) new
  | registering asked own registering empty new =>
    rw [asked] at requests
    exact .registering (List.sublist_nil.mp requests) own (turn.trans registering) (none empty) new
  | served all fits answers =>
    refine .served (fun framing member => all framing (requests.subset member)) ?_ fun framing member =>
      answers framing (replies framing member)
    rw [turn]
    exact fits

theorem shrink_sound (sound : Sound config s) (here : s.links[k]? = some link) (owner : link'.owner = link.owner)
    (turn : link'.turn = link.turn) (requests : link'.requests.Sublist link.requests)
    (replies : ∀ framing ∈ link'.replies, framing ∈ link.replies) : Sound config (s.setLink k link') :=
  link_sound sound here s.server link' owner [] (fun _ => nofun) sound.counted sound.once (fun live => turn ▸ live)
    fun _ _ _ fits => fits_shrink turn requests replies fits

theorem hangUp_sound (sound : Sound config s) (conn : Option Nat) : Sound config (s.hangUp conn) := by
  unfold hangUp
  split
  · exact sound
  · split
    · exact sound
    · rename_i here
      exact shrink_sound sound here rfl rfl (List.Sublist.refl _) fun _ member => member

theorem onLink_some {f : Registrar → Nat → Uplink → Option (Registrar × Uplink)} (moves : s.onLink i f = some s') :
    ∃ br k link br' link', s.registrars[i]? = some br ∧ br.phase.conn = some k ∧
      s.links[k]? = some link ∧ f br k link = some (br', link') ∧ s' = (s.setRegistrar i br').setLink k link' := by
  obtain ⟨br, at_i, moves⟩ := Option.bind_eq_some_iff.mp moves
  obtain ⟨k, conn, moves⟩ := Option.bind_eq_some_iff.mp moves
  obtain ⟨link, at_k, moves⟩ := Option.bind_eq_some_iff.mp moves
  obtain ⟨⟨br', link'⟩, acts, rfl⟩ := Option.map_eq_some_iff.mp moves
  exact ⟨br, k, link, br', link', at_i, conn, at_k, acts, rfl⟩

theorem receive_granted {resp : BrokerRegistrationResponse} (fits : link.Fits handled k id granted True)
    (replies : link.replies = framing :: rest) (read : received BrokerRegistrationResponse.decode framing = some resp)
    (fine : resp.errorCode = 0) :
    granted resp.brokerEpoch := by
  cases fits with
  | asked _ _ _ empty => rw [empty] at replies; cases replies
  | registering _ _ _ empty => rw [empty] at replies; cases replies
  | served _ _ answers =>
    rw [replies] at answers
    obtain ⟨correlationId, ⟨sent, rfl, known⟩ | ⟨done, _⟩⟩ := answers framing List.mem_cons_self
    · obtain rfl := received_reply sent.reads read
      exact known fine
    · exact absurd trivial done

theorem receive_asking (asking : br.phase = .asking k) (framing : Bytes) :
    (br.receive framing).brokerID = br.brokerID ∧ ((br.receive framing).phase = .dialing ∨
      ∃ resp, received BrokerRegistrationResponse.decode framing = some resp ∧ resp.errorCode = 0 ∧
        (br.receive framing).phase = .ticking k ∧ (br.receive framing).brokerEpoch = resp.brokerEpoch) := by
  unfold Registrar.receive
  rw [asking]
  dsimp only
  cases read : received BrokerRegistrationResponse.decode framing with
  | none => exact ⟨rfl, .inl rfl⟩
  | some resp =>
    dsimp only
    split
    · exact ⟨rfl, .inl rfl⟩
    · rename_i fine
      exact ⟨rfl, .inr ⟨resp, rfl, not_not.mp fine, rfl, rfl⟩⟩

theorem receive_beating (beating : br.phase = .beating k) (framing : Bytes) :
    (br.receive framing).brokerID = br.brokerID ∧ (br.receive framing).phase = .ticking k ∧
      (br.receive framing).brokerEpoch = br.brokerEpoch := by
  unfold Registrar.receive
  rw [beating]
  dsimp only
  split
  · exact ⟨rfl, rfl, rfl⟩
  · exact ⟨rfl, rfl, rfl⟩

theorem receive_some (acts : receive br link = some (br', link')) :
    ∃ framing rest broken, link.replies = framing :: rest ∧ br' = br.receive framing ∧
      link' = { link with replies := rest, broken := broken } ∧
        ((∃ k, br.phase = .asking k) ∨ ∃ k, br.phase = .beating k) := by
  unfold receive at acts
  split at acts
  · rename_i k framing rest phase replies
    cases acts
    exact ⟨framing, rest, _, replies, rfl, rfl, .inl ⟨k, phase⟩⟩
  · rename_i k framing rest phase replies
    cases acts
    exact ⟨framing, rest, _, replies, rfl, rfl, .inr ⟨k, phase⟩⟩
  · cases acts

theorem keeps_sound (sound : Sound config s) (here : s.registrars[i]? = some br) (same : br'.brokerID = br.brokerID)
    (epoch : br'.brokerEpoch = br.brokerEpoch) (asks : ∀ k, br'.phase = .asking k ↔ br.phase = .asking k)
    (stays : ∀ k, br'.phase.conn = some k → br.phase.conn = some k) : Sound config (s.setRegistrar i br') := by
  refine registrar_sound sound here same (fun k => (asks k).mp) fun k conn => ⟨stays k conn, ?_⟩
  intro past link at_k own live
  obtain ⟨before, at_before, _, granted⟩ := sound.registrars i br here k (stays k conn)
  obtain rfl := Option.some.inj (at_k.symm.trans at_before)
  rw [epoch]
  exact granted (fun asking => past ((asks k).mpr asking)) live

theorem receive_sound (sound : Sound config s) (moves : step config (.receive i) s = some s') :
    Sound config s' := by
  obtain ⟨br, k, link, br', link', at_i, conn, at_k, acts, rfl⟩ := onLink_some moves
  obtain ⟨framing, rest, broken, replies, rfl, rfl, phase⟩ := receive_some acts
  have next : Sound config (s.setRegistrar i (br.receive framing)) := by
    rcases phase with ⟨k', asking⟩ | ⟨k', beating⟩
    · obtain ⟨same, left | ⟨resp, read, fine, ticking, epoch⟩⟩ := receive_asking asking framing
      · refine registrar_sound sound at_i same ?_ ?_
        · rw [left]
          exact fun _ => nofun
        · rw [left]
          exact fun _ => nofun
      · refine registrar_sound sound at_i same ?_ ?_
        · rw [ticking]
          exact fun _ => nofun
        · rw [ticking, epoch, asking]
          rintro k'' ⟨⟩
          refine ⟨rfl, ?_⟩
          rintro _ link' at_k' rfl live
          rw [asking] at conn
          obtain rfl := Option.some.inj conn
          obtain rfl := Option.some.inj (at_k.symm.trans at_k')
          obtain ⟨owner, found, fits⟩ := sound.links _ _ at_k
          obtain rfl := Option.some.inj (at_i.symm.trans found)
          exact receive_granted ((fits live).mono (fun new => new) (fun _ known => known) fun _ =>
            asking) replies read fine
    · obtain ⟨same, ticking, epoch⟩ := receive_beating beating framing
      refine keeps_sound sound at_i same epoch ?_ ?_
      · rw [ticking, beating]
        exact fun _ => iff_of_false nofun nofun
      · rw [ticking, beating]
        exact fun _ conn => conn
  refine shrink_sound next at_k rfl rfl (List.Sublist.refl _) ?_
  intro other member
  rw [replies]
  exact List.mem_cons_of_mem _ member

theorem fail_sound (sound : Sound config s) (moves : step config (.fail i) s = some s') : Sound config s' := by
  obtain ⟨br, k, link, br', link', at_i, conn, at_k, acts, rfl⟩ := onLink_some moves
  simp only [fail, Option.ite_none_right_eq_some] at acts
  obtain ⟨rfl, rfl⟩ := Prod.mk.inj (Option.some.inj acts.2)
  refine shrink_sound ?_ at_k rfl rfl (List.Sublist.refl _) fun _ member => member
  unfold Registrar.fail
  split
  · exact registrar_sound sound at_i rfl (fun _ => nofun) fun _ => nofun
  · rename_i beating
    exact keeps_sound sound at_i rfl rfl (fun _ => by rw [beating]; simp) (by rw [beating]; exact fun _ conn => conn)
  · exact keeps_sound sound at_i rfl rfl (fun _ => Iff.rfl) fun _ conn => conn

theorem beat_sound (sound : Sound config s) (at_i : s.registrars[i]? = some br) (beating : br.phase = .beating k)
    (at_k : s.links[k]? = some link) (correlationId : Int32) (metadataOffset : Int64) :
    Sound config (s.setLink k { link with
      requests := link.requests ++ [heartbeatFrame correlationId (br.heartbeat metadataOffset)] }) := by
  refine link_sound sound at_k s.server _ ?_ [] (fun _ => nofun) sound.counted sound.once (fun live => live) ?_
  · rfl
  intro br' found live fits
  obtain ⟨_, at_k', own, granted⟩ := sound.registrars i br at_i k (by rw [beating]; rfl)
  obtain rfl := Option.some.inj (at_k.symm.trans at_k')
  rw [own] at found
  obtain rfl := Option.some.inj (at_i.symm.trans found)
  have granted := granted (by rw [beating]; exact nofun) live
  cases fits with
  | asked _ _ _ _ new => exact absurd rfl (new _ granted.mem)
  | registering _ _ _ _ new => exact absurd rfl (new _ granted.mem)
  | served requests turn replies =>
    refine .served ?_ turn replies
    intro framing member
    rcases List.mem_append.mp member with before | last
    · exact requests framing before
    · exact ⟨by rw [beating]; exact nofun, correlationId, _, List.mem_singleton.mp last, rfl, granted⟩

theorem tick_sound (sound : Sound config s) {metadataOffset : Int64} {written : Bool}
    (moves : step config (.tick i metadataOffset written) s = some s') : Sound config s' := by
  obtain ⟨br, k, link, br', link', at_i, conn, at_k, acts, rfl⟩ := onLink_some moves
  unfold tick at acts
  split at acts
  · rename_i k' ticking
    rw [ticking] at conn
    obtain rfl := Option.some.inj conn
    dsimp only at acts
    split at acts
    · cases acts
      have next : Sound config
        (s.setRegistrar i { br with correlationId := br.correlationId + 1, phase := .beating k' }) :=
        keeps_sound sound at_i rfl rfl (fun _ => by rw [ticking]; simp) (by rw [ticking]; exact fun _ conn => conn)
      split
      · exact shrink_sound next at_k rfl rfl (List.Sublist.refl _) fun _ member => member
      · exact beat_sound next (List.getElem?_set_self (List.getElem?_eq_some_iff.mp at_i).1) rfl at_k _ metadataOffset
    · split at acts
      · cases acts
        refine shrink_sound ?_ at_k rfl rfl (List.Sublist.refl _) fun _ member => member
        exact keeps_sound sound at_i rfl rfl (fun _ => Iff.rfl) fun _ conn => conn
      · cases acts
  · cases acts

theorem leaves_sound (sound : Sound config s) (here : s.registrars[i]? = some br) :
    Sound config (s.setRegistrar i { br with phase := .ended }) :=
  registrar_sound sound here rfl (fun _ => nofun) fun _ => nofun

theorem boot_sound (sound : Sound config s) (br : Registrar) (idle : br.phase = .dialing) :
    Sound config { s with registrars := s.registrars ++ [br] } where
  counted := sound.counted
  once := sound.once
  known := sound.known
  links k link at_k := by
    obtain ⟨owner, found, fits⟩ := sound.links k link at_k
    exact ⟨owner, List.getElem?_append_left (List.getElem?_eq_some_iff.mp found).1 ▸ found, fits⟩
  registrars i other at_i k conn := by
    have at_i : (s.registrars ++ [br])[i]? = some other := at_i
    rcases Nat.lt_or_ge i s.registrars.length with before | new
    · rw [List.getElem?_append_left before] at at_i
      exact sound.registrars i other at_i k conn
    · rw [List.getElem?_append_right new] at at_i
      obtain rfl := List.mem_singleton.mp (List.mem_of_getElem? at_i)
      rw [idle] at conn
      cases conn

theorem append_sound (sound : Sound config s) (at_i : s.registrars[i]? = some br) (link : Uplink)
    (own : link.owner = i)
    (fits : ∀ handled granted asking, (∀ x ∈ handled, x.2 ≠ s.links.length) →
      link.Fits handled s.links.length br.brokerID granted asking) :
    Sound config { s with links := s.links ++ [link] } where
  counted := sound.counted
  once := sound.once
  known x member := by
    show x.2 < (s.links ++ [link]).length
    rw [List.length_append]
    exact Nat.lt_add_right 1 (sound.known x member)
  links k other at_k := by
    have at_k : (s.links ++ [link])[k]? = some other := at_k
    rcases Nat.lt_or_ge k s.links.length with before | new
    · rw [List.getElem?_append_left before] at at_k
      exact sound.links k other at_k
    · have inside := (List.getElem?_eq_some_iff.mp at_k).1
      rw [List.length_append, List.length_singleton] at inside
      obtain rfl : k = s.links.length := by omega
      rw [List.getElem?_append_right new] at at_k
      obtain rfl := List.mem_singleton.mp (List.mem_of_getElem? at_k)
      exact ⟨br, own ▸ at_i, fun _ => fits _ _ _ fun x member => Nat.ne_of_lt (sound.known x member)⟩
  registrars j other at_j k conn := by
    obtain ⟨before, at_k, rest⟩ := sound.registrars j other at_j k conn
    exact ⟨before, List.getElem?_append_left (List.getElem?_eq_some_iff.mp at_k).1 ▸ at_k, rest⟩

theorem dial_sound (sound : Sound config s) {incarnationId : UUID} {written : Bool}
    (moves : step config (.dial i incarnationId written) s = some s') : Sound config s' := by
  obtain ⟨br, at_i, moves⟩ := Option.bind_eq_some_iff.mp moves
  simp only [Option.ite_none_right_eq_some] at moves
  obtain ⟨idle, moves⟩ := moves
  obtain rfl := Option.some.inj moves
  have fits : ∀ handled granted asking, (∀ x ∈ handled, x.2 ≠ s.links.length) →
      Uplink.Fits handled s.links.length br.brokerID granted asking
        ⟨i, if written then [registrationFrame (br.correlationId + 1) (br.request incarnationId)] else [], [], .reading,
          !written⟩ := by
    intro handled granted asking new
    cases written with
    | true => exact .asked rfl rfl rfl rfl new
    | false => exact .served (fun _ => nofun) trivial fun _ => nofun
  have appended := append_sound sound at_i _ rfl fits
  refine set_sound appended at_i rfl ?_ ?_
  · intro k link at_k own live
    obtain ⟨owner, found, before⟩ := appended.links k link at_k
    rw [own] at found
    obtain rfl := Option.some.inj (at_i.symm.trans found)
    by_cases mine : k = s.links.length
    · subst mine
      obtain rfl := Option.some.inj (List.getElem?_concat_length.symm.trans at_k)
      exact fits _ _ _ fun x member => Nat.ne_of_lt (sound.known x member)
    · refine (before live).mono (fun new => new) (fun _ known => known) ?_
      cases written with
      | true => exact fun asks => absurd (RegistrarPhase.asking.inj asks).symm mine
      | false => exact nofun
  · cases written with
    | true =>
      rintro k ⟨⟩
      refine ⟨_, List.getElem?_concat_length, rfl, fun past => absurd rfl past⟩
    | false => exact fun _ => nofun

theorem restart_sound (sound : Sound config s) (now : Int) (closed : Bool) :
    Sound config { s with
      server := config.start now (s.files closed)
      links := s.links.map Uplink.close
      handled := [] } where
  counted id := config.registry_epochOf now id
  once := List.nodup_nil
  known _ := nofun
  links k link at_k := by
    rw [List.getElem?_map, Option.map_eq_some_iff] at at_k
    obtain ⟨before, at_k, rfl⟩ := at_k
    obtain ⟨owner, found, _⟩ := sound.links k before at_k
    exact ⟨owner, found, fun live => absurd rfl live⟩
  registrars i br at_i k conn := by
    obtain ⟨before, at_k, own, _⟩ := sound.registrars i br at_i k conn
    exact ⟨before.close, by rw [List.getElem?_map, at_k]; rfl, own, fun _ live => absurd rfl live⟩

theorem step_sound {a : EnrolmentAction} (sound : Sound config s) (moves : step config a s = some s') :
    Sound config s' := by
  cases a with
  | boot brokerID clusterID host port =>
    obtain rfl := Option.some.inj moves
    exact boot_sound sound _ rfl
  | dial => exact dial_sound sound moves
  | receive => exact receive_sound sound moves
  | fail => exact fail_sound sound moves
  | tick => exact tick_sound sound moves
  | stop i =>
    obtain ⟨br, at_i, rfl⟩ := Option.map_eq_some_iff.mp moves
    refine hangUp_sound ?_ _
    exact keeps_sound sound at_i rfl rfl (fun _ => Iff.rfl) fun _ conn => conn
  | quit i =>
    obtain ⟨br, at_i, moves⟩ := Option.bind_eq_some_iff.mp moves
    split at moves
    · obtain rfl := Option.some.inj moves
      exact leaves_sound sound at_i
    · obtain rfl := Option.some.inj moves
      exact leaves_sound sound at_i
    · cases moves
  | kill i =>
    obtain ⟨br, at_i, rfl⟩ := Option.map_eq_some_iff.mp moves
    exact hangUp_sound (leaves_sound sound at_i) _
  | serve => exact serve_sound sound moves
  | sever k requests replies =>
    obtain ⟨link, at_k, rfl⟩ := Option.map_eq_some_iff.mp moves
    exact shrink_sound sound at_k rfl rfl (List.take_sublist _ _) fun _ => List.mem_of_mem_take
  | restart now closed =>
    obtain rfl := Option.some.inj moves
    exact restart_sound sound now closed

theorem run_sound (run : (machine config).Run s) : Sound config s := by
  refine Machine.reached_invariant (Sound config) ?_ (fun s a s' sound _ moves => step_sound sound moves) run
  rintro s ⟨now, files, rfl⟩
  exact ⟨fun id => config.registry_epochOf now id, List.nodup_nil, fun _ => nofun, fun _ _ => nofun, fun _ _ => nofun⟩

/-- What the controller is about to validate is of the broker of its connection, and has the epoch of that. -/
theorem validating_granted (sound : Sound config s) (here : s.links[k]? = some link) {correlationId : Int32}
    {req : BrokerHeartbeatRequest} (turn : link.turn = .validating correlationId req) :
    (∃ br, s.registrars[link.owner]? = some br ∧ br.brokerID = req.brokerId) ∧
      Granted config s.handled k req.brokerId req.brokerEpoch := by
  obtain ⟨br, found, fits⟩ := sound.links k link here
  obtain ⟨_, granted, _⟩ := fits_served (fits (by rw [turn]; exact nofun)) (by rw [turn]; exact nofun)
    (by rw [turn]; exact fun _ _ => nofun)
  rw [turn] at granted
  obtain ⟨_, own, granted⟩ := granted
  exact ⟨⟨br, found, own.symm⟩, own ▸ granted⟩

theorem validated_iff (run : (machine config).Run s) (few : s.handled.length + 1 < 2 ^ 63)
    (here : s.links[k]? = some link) {correlationId : Int32} {req : BrokerHeartbeatRequest}
    (turn : link.turn = .validating correlationId req) (now : Int) :
    (s.server.registry.validateAndUpdate now req.brokerId req.brokerEpoch req.currentMetadataOffset).2 = none ↔
      s.newest req.brokerId = some k := by
  have sound := run_sound run
  obtain ⟨_, granted⟩ := validating_granted sound here turn
  rw [newest, ← granted.newest_iff sound.once few, ← sound.counted]
  exact s.server.registry.validateAndUpdate_none_iff now req.brokerId _ (granted.ne_zero few)

end Enrolment

end KafGo.Server
