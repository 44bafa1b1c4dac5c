import KafGo.Server.Enrolment

/-!
# Heartbeats

The controller accepts heartbeats on the connection that has brought the last registration of a broker. A registrar
whose heartbeats are refused goes on sending them, and does not register again.
-/

namespace KafGo.Server
open Lib Scanner Coordinator Protocol Storage Wire

/-- A registrar that has registered stays with its connection as long as it runs. -/
def RegistrarPhase.Settled (k : Nat) : RegistrarPhase → Prop
  | .ticking j | .beating j => j = k
  | .ended => True
  | .dialing | .asking _ => False

namespace Enrolment

variable {config : ServerConfig} {s s' : Enrolment}

variable {k i : Nat} {link link' : Uplink} {br br' : Registrar}

/-- A heartbeat that reaches the registry is one of the broker that it names, and it is accepted exactly if its
connection has brought the last registration of that broker. -/
theorem accepted_newest (run : (machine config).Run s) (few : s.handled.length + 1 < 2 ^ 63)
    (here : s.links[k]? = some link) {correlationId : Int32} {req : BrokerHeartbeatRequest}
    (turn : link.turn = .validating correlationId req) (now : Int) :
    (∃ br, s.registrars[link.owner]? = some br ∧ br.brokerID = req.brokerId) ∧
      ((s.server.registry.validateAndUpdate now req.brokerId req.brokerEpoch req.currentMetadataOffset).2 = none ↔
        s.newest req.brokerId = some k) := by
  exact ⟨(validating_granted (run_sound run) here turn).1, validated_iff run few here turn now⟩

def enrol (i : Nat) : List EnrolmentAction :=
  [.boot 2 .nil .nil 9093, .dial i (.copy []) true, .serve i 0, .serve i 0, .serve i 0, .receive i]

def validates (s : Enrolment) (k : Nat) : Bool :=
  match s.links[k]?.map Uplink.turn with
  | some (.validating _ req) => decide (req.brokerId = 2)
  | _ => false

theorem validates_turn (checked : s.validates k = true) :
    ∃ link correlationId req, s.links[k]? = some link ∧ link.turn = .validating correlationId req ∧
      req.brokerId = 2 := by
  unfold validates at checked
  cases here : s.links[k]? with
  | none =>
    rw [here] at checked
    cases checked
  | some link =>
    rw [here] at checked
    cases turn : link.turn with
    | validating correlationId req =>
      simp only [Option.map_some, turn, decide_eq_true_eq] at checked
      exact ⟨link, correlationId, req, rfl, turn, checked⟩
    | _ => simp [turn] at checked

/-- The process of broker 2 is started again while the first one has a heartbeat under way. -/
theorem accepted_newest_twice : ∃ s link link' correlationId req correlationId' req',
    (machine ControllerHost.twoBrokers).Run s ∧ s.links[0]? = some link ∧ link.turn = .validating correlationId req ∧
    s.links[1]? = some link' ∧ link'.turn = .validating correlationId' req' ∧ s.newest 2 = some 1 ∧
    (s.server.registry.validateAndUpdate 0 req.brokerId req.brokerEpoch req.currentMetadataOffset).2 ≠ none ∧
    (s.server.registry.validateAndUpdate 0 req'.brokerId req'.brokerEpoch req'.currentMetadataOffset).2 = none := by
  obtain ⟨s, run, checked⟩ := Machine.exec_reaches (machine ControllerHost.twoBrokers) (fun _ _ => True)
    (fun _ _ => true)
    (fun _ _ _ => trivial) (s := ⟨ControllerHost.twoBrokers.start 0 [], [], [], []⟩)
    (enrol 0 ++ enrol 1 ++ [.tick 0 0 true, .tick 1 0 true, .serve 0 0, .serve 1 0])
    (fun s => s.validates 0 && s.validates 1 && decide (s.handled = [(2, 1), (2, 0)])) ⟨0, [], rfl⟩ (by decide +kernel)
  obtain ⟨both, handled⟩ := Bool.and_eq_true_iff.mp checked
  obtain ⟨first, second⟩ := Bool.and_eq_true_iff.mp both
  have handled := of_decide_eq_true handled
  have newest : s.newest 2 = some 1 := by
    rw [newest, handled]
    rfl
  have few : s.handled.length + 1 < 2 ^ 63 := by
    rw [handled]
    decide
  obtain ⟨link, correlationId, req, here, turn, id⟩ := validates_turn first
  obtain ⟨link', correlationId', req', here', turn', id'⟩ := validates_turn second
  have old := (accepted_newest run few here turn 0).2
  have new := (accepted_newest run few here' turn' 0).2
  rw [id, newest] at old
  rw [id', newest] at new
  refine ⟨s, link, link', correlationId, req, correlationId', req', run, here, turn, here', turn', newest, ?_, ?_⟩
  · rw [id]
    exact fun accepted => absurd (old.mp accepted) (by decide)
  · rw [id']
    exact new.mpr rfl

/-! ### Out for good -/

/-- Connections that the controller has closed stay closed, and registrars that have registered stay with theirs. -/
structure Onward (s s' : Enrolment) : Prop where
  links : ∀ (k : Nat) (link : Uplink), s.links[k]? = some link →
    ∃ link' : Uplink, s'.links[k]? = some link' ∧ (link.turn = .closed → link'.turn = .closed)
  registrars : ∀ (i : Nat) (br : Registrar) k, s.registrars[i]? = some br → br.phase.Settled k →
    ∃ br' : Registrar, s'.registrars[i]? = some br' ∧ br'.phase.Settled k

theorem Onward.refl (s : Enrolment) : Onward s s :=
  ⟨fun _ link at_k => ⟨link, at_k, fun closed => closed⟩, fun _ br _ at_i settled => ⟨br, at_i, settled⟩⟩

theorem onward_link (here : s.links[k]? = some link) (link' : Uplink)
    (closed : link.turn = .closed → link'.turn = .closed) : Onward s (s.setLink k link') := by
  refine ⟨?_, (Onward.refl s).registrars⟩
  intro j other at_j
  rcases set_at here link' at_j with ⟨rfl, rfl, now⟩ | ⟨_, now⟩
  · exact ⟨link', now, closed⟩
  · exact ⟨other, now, fun closed => closed⟩

theorem onward_registrar (here : s.registrars[i]? = some br) (br' : Registrar)
    (settled : ∀ k, br.phase.Settled k → br'.phase.Settled k) : Onward s (s.setRegistrar i br') := by
  refine ⟨(Onward.refl s).links, ?_⟩
  intro j other k at_j before
  rcases set_at here br' at_j with ⟨rfl, rfl, now⟩ | ⟨_, now⟩
  · exact ⟨br', now, settled k before⟩
  · exact ⟨other, now, before⟩

theorem hangUp_onward (here : s.registrars[i]? = some br) (br' : Registrar)
    (settled : ∀ k, br.phase.Settled k → br'.phase.Settled k) (conn : Option Nat) :
    Onward s ((s.setRegistrar i br').hangUp conn) ∧ ((s.setRegistrar i br').hangUp conn).handled = s.handled := by
  have set := onward_registrar here br' settled
  unfold hangUp
  split
  · exact ⟨set, rfl⟩
  · split
    · exact ⟨set, rfl⟩
    · rename_i at_k
      refine ⟨⟨(onward_link at_k _ ?_).links, set.registrars⟩, rfl⟩
      exact fun closed => closed

theorem onLink_onward {f : Registrar → Nat → Uplink → Option (Registrar × Uplink)}
    (kept : ∀ br k link br' link', f br k link = some (br', link') → link'.turn = link.turn ∧ ∀ k, br.phase.Settled k →
      br'.phase.Settled k)
    (moves : s.onLink i f = some s') :
    Onward s s' ∧ s'.handled = s.handled := by
  obtain ⟨br, k, link, br', link', at_i, _, at_k, acts, rfl⟩ := onLink_some moves
  obtain ⟨turn, settled⟩ := kept _ _ _ _ _ acts
  exact ⟨⟨(onward_link at_k link' fun closed => turn.trans closed).links,
    (onward_registrar at_i br' settled).registrars⟩, rfl⟩

theorem receive_kept (acts : receive br link = some (br', link')) :
    link'.turn = link.turn ∧ ∀ k, br.phase.Settled k → br'.phase.Settled k := by
  obtain ⟨framing, _, _, _, rfl, rfl, ⟨_, asking⟩ | ⟨_, beating⟩⟩ := receive_some acts
  · rw [asking]
    exact ⟨rfl, fun _ => False.elim⟩
  · rw [beating, (receive_beating beating framing).2.1]
    exact ⟨rfl, fun _ settled => settled⟩

theorem fail_kept (acts : fail br link = some (br', link')) :
    link'.turn = link.turn ∧ ∀ k, br.phase.Settled k → br'.phase.Settled k := by
  simp only [fail, Option.ite_none_right_eq_some] at acts
  obtain ⟨rfl, rfl⟩ := Prod.mk.inj (Option.some.inj acts.2)
  refine ⟨rfl, fun k => ?_⟩
  unfold Registrar.fail
  split
  · rename_i asking
    rw [asking]
    exact False.elim
  · rename_i beating
    rw [beating]
    exact fun settled => settled
  · exact fun settled => settled

theorem tick_kept {metadataOffset : Int64} {written : Bool}
    (acts : tick br metadataOffset written link = some (br', link')) :
    link'.turn = link.turn ∧ ∀ k, br.phase.Settled k → br'.phase.Settled k := by
  unfold tick at acts
  split at acts
  · rename_i ticking
    dsimp only at acts
    split at acts
    · cases acts
      rw [ticking]
      exact ⟨rfl, fun _ settled => settled⟩
    · simp only [Option.ite_none_right_eq_some] at acts
      obtain ⟨rfl, rfl⟩ := Prod.mk.inj (Option.some.inj acts.2)
      exact ⟨rfl, fun _ settled => settled⟩
  · cases acts

theorem step_onward {a : EnrolmentAction} (moves : step config a s = some s') : Onward s s' ∧
    (s'.handled = s.handled ∨ (∀ link ∈ s'.links, link.turn = .closed) ∨
      ∃ k link correlationId req, s.links[k]? = some link ∧ link.turn = .registering correlationId req ∧
        s'.handled = (req.brokerId, k) :: s.handled) := by
  cases a with
  | boot =>
    obtain rfl := Option.some.inj moves
    refine ⟨⟨(Onward.refl s).links, fun i br k at_i settled => ⟨br, ?_, settled⟩⟩, .inl rfl⟩
    exact List.getElem?_append_left (List.getElem?_eq_some_iff.mp at_i).1 ▸ at_i
  | dial i incarnationId written =>
    obtain ⟨br, at_i, moves⟩ := Option.bind_eq_some_iff.mp moves
    simp only [Option.ite_none_right_eq_some] at moves
    obtain rfl := Option.some.inj moves.2
    refine ⟨⟨fun k link at_k => ⟨link, ?_, fun closed => closed⟩, (onward_registrar at_i _ ?_).registrars⟩, .inl rfl⟩
    · exact List.getElem?_append_left (List.getElem?_eq_some_iff.mp at_k).1 ▸ at_k
    · rw [moves.1]
      exact fun _ => False.elim
  | receive => exact (onLink_onward (fun _ _ _ _ _ => receive_kept) moves).imp_right .inl
  | fail => exact (onLink_onward (fun _ _ _ _ _ => fail_kept) moves).imp_right .inl
  | tick => exact (onLink_onward (fun _ _ _ _ _ => tick_kept) moves).imp_right .inl
  | stop i =>
    obtain ⟨br, at_i, rfl⟩ := Option.map_eq_some_iff.mp moves
    refine (hangUp_onward at_i _ ?_ _).imp_right .inl
    exact fun _ settled => settled
  | quit i =>
    obtain ⟨br, at_i, moves⟩ := Option.bind_eq_some_iff.mp moves
    split at moves
    · obtain rfl := Option.some.inj moves
      exact ⟨onward_registrar at_i _ fun _ _ => trivial, .inl rfl⟩
    · obtain rfl := Option.some.inj moves
      exact ⟨onward_registrar at_i _ fun _ _ => trivial, .inl rfl⟩
    · cases moves
  | kill i =>
    obtain ⟨br, at_i, rfl⟩ := Option.map_eq_some_iff.mp moves
    refine (hangUp_onward at_i _ ?_ _).imp_right .inl
    exact fun _ _ => trivial
  | serve k now =>
    obtain ⟨link, here, moves⟩ := Option.bind_eq_some_iff.mp moves
    obtain ⟨⟨server, link'⟩, served, rfl⟩ := Option.map_eq_some_iff.mp moves
    refine ⟨⟨(onward_link here link' ?_).links, (Onward.refl s).registrars⟩, ?_⟩
    · intro closed
      rw [Controller.serve, closed] at served
      cases served
    · dsimp only
      split
      · rename_i correlationId req turn
        exact .inr (.inr ⟨k, link, correlationId, req, here, turn, rfl⟩)
      · exact .inl rfl
  | sever k requests replies =>
    obtain ⟨link, here, rfl⟩ := Option.map_eq_some_iff.mp moves
    exact ⟨onward_link here _ fun closed => closed, .inl rfl⟩
  | restart now closed =>
    obtain rfl := Option.some.inj moves
    refine ⟨⟨fun k link at_k => ⟨link.close, ?_, fun _ => rfl⟩, (Onward.refl s).registrars⟩, .inr (.inl ?_)⟩
    · show (s.links.map Uplink.close)[k]? = _
      rw [List.getElem?_map, at_k]
      rfl
    · intro link member
      obtain ⟨before, _, rfl⟩ := List.mem_map.mp member
      rfl

/-- The controller has closed a connection, or it has got a later registration of the broker. -/
def Out (s : Enrolment) (id : Int32) (k : Nat) : Prop :=
  ∃ link, s.links[k]? = some link ∧ (link.turn = .closed ∨ (id, k) ∈ s.handled ∧ s.newest id ≠ some k)

theorem step_out {a : EnrolmentAction} {id : Int32} (sound : Sound config s) (out : s.Out id k)
    (moves : step config a s = some s') : s'.Out id k := by
  obtain ⟨onward, handled⟩ := step_onward moves
  obtain ⟨link, here, closed | ⟨registered, later⟩⟩ := out
  · obtain ⟨link', here', still⟩ := onward.links k link here
    exact ⟨link', here', .inl (still closed)⟩
  · obtain ⟨link', here', still⟩ := onward.links k link here
    rcases handled with same | all | ⟨k', other, correlationId, req, at_k', turn, grown⟩
    · exact ⟨link', here', .inr ⟨same ▸ registered, by rw [newest, same]; exact later⟩⟩
    · exact ⟨link', here', .inl (all link' (List.mem_of_getElem? here'))⟩
    · refine ⟨link', here', .inr ⟨grown ▸ List.mem_cons_of_mem _ registered, ?_⟩⟩
      -- The connection has brought its one registration already.
      have other : k' ≠ k := by
        rintro rfl
        obtain ⟨br, _, fits⟩ := sound.links k' other at_k'
        cases fits (by simp [turn]) with
        | asked _ _ _ _ new => exact new _ registered rfl
        | registering _ _ _ _ new => exact new _ registered rfl
        | served _ fits => rw [turn] at fits; exact fits
      rw [newest, grown, List.find?_cons]
      split
      · simpa using other
      · exact later

theorem newest_of_out (sound : Sound config s) {id id' : Int32} (registered : (id, k) ∈ s.handled)
    (later : s.newest id ≠ some k) : s.newest id' ≠ some k := by
  intro newest
  obtain ⟨⟨id'', k'⟩, found, rfl⟩ := Option.map_eq_some_iff.mp newest
  have among := List.mem_of_find?_eq_some found
  have chosen := List.find?_some found
  obtain ⟨rfl, _⟩ := Prod.mk.inj (List.inj_on_of_nodup_map sound.once registered among rfl)
  have same : id = id' := of_decide_eq_true chosen
  exact later (same ▸ newest)

/-- A registrar whose connection was closed, or after whose registration another one of its broker came, gets no
heartbeat accepted any more, and it does not register again. -/
theorem refused_for_good (run : (machine config).Run s) (at_i : s.registrars[i]? = some br)
    (registered : br.phase = .ticking k ∨ br.phase = .beating k) (here : s.links[k]? = some link)
    (out : link.turn = .closed ∨ s.newest br.brokerID ≠ some k) (later : (machine config).Leads s s')
    (few : s'.handled.length + 1 < 2 ^ 63) :
    (∃ now, s'.registrars[i]? = some now ∧ now.phase.Settled k) ∧
      ∀ link' correlationId req, s'.links[k]? = some link' → link'.turn = .validating correlationId req → ∀ now,
        (s'.server.registry.validateAndUpdate now req.brokerId req.brokerEpoch req.currentMetadataOffset).2 ≠ none := by
  have sound := run_sound run
  have settled : br.phase.Settled k := by
    rcases registered with phase | phase <;> rw [phase] <;> rfl
  have outside : s.Out br.brokerID k := by
    refine ⟨link, here, ?_⟩
    by_cases closed : link.turn = .closed
    · exact .inl closed
    · obtain ⟨_, at_k, _, granted⟩ := sound.registrars i br at_i k (by
        rcases registered with phase | phase <;> rw [phase] <;> rfl)
      obtain rfl := Option.some.inj (here.symm.trans at_k)
      have granted := granted (by rcases registered with phase | phase <;> rw [phase] <;> exact nofun) closed
      exact .inr ⟨granted.mem, out.resolve_left closed⟩
  have along : ∀ s', (machine config).Leads s s' → (machine config).Run s' ∧ s'.Out br.brokerID k ∧
      ∃ now, s'.registrars[i]? = some now ∧ now.phase.Settled k := by
    intro s' later
    induction later with
    | refl => exact ⟨run, outside, br, at_i, settled⟩
    | tail _ moves ih =>
      obtain ⟨run, outside, now, at_now, settled⟩ := ih
      obtain ⟨a, moves⟩ := moves
      exact ⟨.act run trivial moves, step_out (run_sound run) outside moves,
        (step_onward moves).1.registrars i now k at_now settled⟩
  obtain ⟨run', ⟨link', here', outside⟩, settled⟩ := along s' later
  refine ⟨settled, ?_⟩
  intro link'' correlationId req at_k turn now accepted
  obtain rfl := Option.some.inj (here'.symm.trans at_k)
  rcases outside with closed | ⟨mine, other⟩
  · rw [turn] at closed
    cases closed
  · exact newest_of_out (run_sound run') mine other ((validated_iff run' few here' turn now).mp accepted)

/-- The first process of broker 2 after the second one has registered. -/
theorem refused_for_good_twice : ∃ s, (machine ControllerHost.twoBrokers).Run s ∧
    ∀ s', (machine ControllerHost.twoBrokers).Leads s s' → s'.handled.length + 1 < 2 ^ 63 →
      (∃ now, s'.registrars[0]? = some now ∧ now.phase.Settled 0) ∧
        ∀ link' correlationId req, s'.links[0]? = some link' → link'.turn = .validating correlationId req → ∀ now,
          (s'.server.registry.validateAndUpdate now req.brokerId req.brokerEpoch
            req.currentMetadataOffset).2 ≠ none := by
  obtain ⟨s, run, checked⟩ := Machine.exec_reaches (machine ControllerHost.twoBrokers) (fun _ _ => True)
    (fun _ _ => true)
    (fun _ _ _ => trivial) (s := ⟨ControllerHost.twoBrokers.start 0 [], [], [], []⟩) (enrol 0 ++ enrol 1)
    (fun s : Enrolment => decide (s.registrars[0]?.map (fun br : Registrar => (br.brokerID, br.phase)) =
      some (2, .ticking 0) ∧ s.newest 2 = some 1) && (s.links[0]?).isSome) ⟨0, [], rfl⟩ (by decide +kernel)
  obtain ⟨both, linked⟩ := Bool.and_eq_true_iff.mp checked
  obtain ⟨registrar, newest⟩ := of_decide_eq_true both
  obtain ⟨br, at_i, same⟩ := Option.map_eq_some_iff.mp registrar
  obtain ⟨id, phase⟩ := Prod.mk.inj same
  obtain ⟨link, here⟩ := Option.isSome_iff_exists.mp linked
  refine ⟨s, run, fun s' later few => ?_⟩
  exact refused_for_good run at_i (.inl phase) here (.inr (by rw [id, newest]; decide)) later few

end Enrolment

end KafGo.Server
