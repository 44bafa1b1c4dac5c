import KafGo.Partition.Steps
import Mathlib.Data.List.Chain

/-!
# Producer histories

The batches of an idempotent producer in the log. `Validate`, `AppendRaw` and `Record` are separate steps of a
handler, so what `Validate` decided may be stale when the batch is appended. A handler that is between its
`Validate` and its `Record` must be the only one of its producer there; then the entry of the producer and its
batches in the log agree whenever no handler is on its way.
-/

namespace KafGo.Partition
open Lib Coordinator Protocol Storage

def Leader.history (s : Leader) (pid : Int) : List Produce :=
  (s.stored.map (·.1)).filter (fun d => d.pid == pid)

/-- A later batch of a producer opens a newer epoch or continues the sequence numbers. -/
def Continues (a b : Produce) : Prop :=
  (a.epoch < b.epoch ∧ b.firstSeq = 0) ∨ (b.epoch = a.epoch ∧ Follows a.lastSeq b.firstSeq)

structure ValidHistory (batches : List Produce) : Prop where
  first : ∀ b ∈ batches.head?, b.firstSeq = 0
  chain : batches.IsChain Continues

theorem validHistory_nil : ValidHistory [] := by
  refine ⟨?_, List.isChain_nil⟩
  intro b member
  exact absurd member (Option.not_mem_none b)

instance (a b : Produce) : Decidable (Continues a b) := inferInstanceAs (Decidable (_ ∨ _))

def Task.sequencing (pid : Int) : Task → Bool
  | .append d | .record d _ => d.pid == pid
  | _ => false

/-- No `Validate` meets an expired entry, and it accepts a batch only while no other handler of the producer is
between its `Validate` and its `Record`. An append fails only while the entry of its producer exists or the
producer has stored nothing. -/
def Task.serialized (c : Config Leader Task) (env : Env) : Task → Bool
  | .validate d =>
    (c.shared.idempotence.producers d.pid).all (fun prod => !IdempotenceState.expired prod env.now) &&
      ((c.shared.idempotence.validate env.now d.pid d.epoch d.firstSeq d.lastSeq).2 != .fresh ||
        c.tasks.all (fun t => !t.sequencing d.pid))
  | .append d =>
    !c.shared.appendFails env d || (c.shared.idempotence.producers d.pid).isSome ||
      (c.shared.history d.pid).isEmpty
  | _ => true

def serialized (c : Config Leader Task) (i : Nat) (env : Env) : Bool :=
  match c.tasks[i]? with
  | none => true
  | some t => t.serialized c env

def Serialized : Condition Leader Task Env := fun c i env => serialized c i env = true

variable {batches : List Produce} {d : Produce} {s : Leader} {c : Config Leader Task}

theorem validHistory_append (valid : ValidHistory batches) (opens : batches = [] → d.firstSeq = 0)
    (continues : ∀ a ∈ batches.getLast?, Continues a d) :
    ValidHistory (batches ++ [d]) where
  first := by
    intro b head
    cases batches with
    | nil =>
      obtain rfl := Option.some.inj head
      exact opens rfl
    | cons a rest => exact valid.first b head
  chain := by
    apply List.isChain_append.mpr
    refine ⟨valid.chain, List.isChain_singleton d, ?_⟩
    intro a last b head
    obtain rfl := Option.some.inj head
    exact continues a last

theorem epochs_ordered (chain : batches.IsChain Continues) :
    batches.Pairwise (fun a b => a.epoch ≤ b.epoch) := by
  have ordered : batches.IsChain (fun a b => a.epoch ≤ b.epoch) := by
    apply chain.imp
    intro a b continues
    rcases continues with ⟨newer, _⟩ | ⟨same, _⟩
    · exact Int.le_of_lt newer
    · exact Int.le_of_eq same.symm
  have transitive : IsTrans Produce (fun a b => a.epoch ≤ b.epoch) := ⟨fun _ _ _ => Int.le_trans⟩
  exact List.isChain_iff_pairwise.mp ordered

/-- A sequence number of an epoch comes again only after the numbers have gone round: no batch is stored twice. -/
def Unrepeated (batches : List Produce) : Prop := ∀ before a between b after,
  batches = before ++ a :: (between ++ b :: after) → a.epoch = b.epoch → a.firstSeq = b.firstSeq →
    2 ^ 31 ≤ ((a :: between).map Produce.count).sum

/-- In an epoch the numbers move by the records of a batch. Both ways to wrap around are multiples of `2 ^ 31`. -/
theorem continues_moves {a b : Produce} (continues : Continues a b) (same : a.epoch = b.epoch) :
    (2 ^ 31 : Int) ∣ b.firstSeq - (a.firstSeq + a.count) := by
  have last := wrapSigned_emod 32 (a.firstSeq + a.count - 1)
  change a.lastSeq % 2 ^ 32 = _ at last
  rcases continues with ⟨newer, _⟩ | ⟨_, next | ⟨zero, largest⟩⟩
  · omega
  · have first := wrapSigned_emod 32 (a.lastSeq + 1)
    rw [← next] at first
    omega
  · omega

theorem chain_moves {between : List Produce} : ∀ {a b : Produce}, (a :: (between ++ [b])).IsChain Continues →
    a.epoch = b.epoch → (2 ^ 31 : Int) ∣ b.firstSeq - (a.firstSeq + ((a :: between).map Produce.count).sum) := by
  induction between with
  | nil =>
    intro a b chain same
    have moves := continues_moves (List.isChain_cons_cons.mp chain).1 same
    simpa using moves
  | cons c between ih =>
    intro a b chain same
    obtain ⟨first, rest⟩ := List.isChain_cons_cons.mp chain
    -- epochs never decrease, so the ones between are the same
    have upper : c.epoch ≤ b.epoch := (List.pairwise_cons.mp (epochs_ordered rest)).1 b (by simp)
    have lower : a.epoch ≤ c.epoch := (List.pairwise_cons.mp (epochs_ordered chain)).1 c (by simp)
    have here := continues_moves first (by omega)
    have later := ih rest (by omega)
    simp only [List.map_cons, List.sum_cons, Nat.cast_add] at later ⊢
    omega

theorem unrepeated_chain (chain : batches.IsChain Continues) (filled : ∀ d ∈ batches, 1 ≤ d.count) :
    Unrepeated batches := by
  rintro before a between b after rfl epoch firstSeq
  have part : (a :: (between ++ [b])).IsChain Continues := by
    refine chain.infix ⟨before, after, ?_⟩
    simp
  have moves := chain_moves part epoch
  have one : 1 ≤ a.count := filled a (by simp)
  simp only [List.map_cons, List.sum_cons, Nat.cast_add] at moves ⊢
  omega

theorem history_stored (d : Produce) (base : Int) (log : CommitLog) (pid : Int) :
    ({ s with log := log, stored := s.stored ++ [(d, base)] } : Leader).history pid =
      s.history pid ++ (if d.pid = pid then [d] else []) := by
  unfold Leader.history
  by_cases same : d.pid = pid <;> simp [same]

/-- The entry is that of the last stored batch. -/
def Synced (s : Leader) (pid : Int) : Prop :=
  match s.idempotence.producers pid with
  | none => s.history pid = []
  | some prod => ∃ a, (s.history pid).getLast? = some a ∧ prod.lastEpoch = a.epoch ∧ prod.lastSeq = a.lastSeq

/-- What a handler of the producer relies on: before its append, that its batch is the next one; before its
`Record`, that it is the last one. -/
def Task.Relies (s : Leader) : Task → Prop
  | .append d => (s.history d.pid = [] → d.firstSeq = 0) ∧ (∀ a ∈ (s.history d.pid).getLast?, Continues a d) ∧
      (s.idempotence.producers d.pid = none ∨ Synced s d.pid)
  | .record d _ => (s.history d.pid).getLast? = some d
  | _ => True

theorem accepted_relies {now : Int} {idempotence : IdempotenceState}
    (result : s.idempotence.validate now d.pid d.epoch d.firstSeq d.lastSeq = (idempotence, .fresh))
    (current : ∀ prod, s.idempotence.producers d.pid = some prod → IdempotenceState.expired prod now = false)
    (synced : Synced s d.pid) : (Task.append d).Relies { s with idempotence := idempotence } := by
  unfold Synced at synced
  rcases IdempotenceState.validate_cases result current with
    ⟨stale, _⟩ | ⟨_, rfl, absent, zero⟩ | ⟨_, rfl, prod, entry, epoch, follows⟩ | ⟨_, rfl, zero, prod, entry, newer⟩
  · exact absurd rfl stale
  · rw [absent] at synced
    have empty : s.history d.pid = [] := synced
    refine ⟨fun _ => zero, fun a last => ?_, Or.inl absent⟩
    change a ∈ (s.history d.pid).getLast? at last
    rw [empty] at last
    cases last
  · have kept : Synced { s with idempotence := s.idempotence } d.pid := by
      unfold Synced
      rw [entry] at synced ⊢
      exact synced
    rw [entry] at synced
    obtain ⟨a, last, sameEpoch, sameSeq⟩ := synced
    refine ⟨fun empty => ?_, fun b last' => ?_, Or.inr kept⟩
    · change s.history d.pid = [] at empty
      rw [empty] at last
      cases last
    · obtain rfl : a = b := Option.some.inj (last.symm.trans last')
      exact Or.inr ⟨epoch.trans sameEpoch, sameSeq ▸ follows⟩
  · rw [entry] at synced
    obtain ⟨a, last, sameEpoch, _⟩ := synced
    refine ⟨fun _ => zero, fun b last' => ?_, Or.inl (s.idempotence.delete_same d.pid)⟩
    obtain rfl : a = b := Option.some.inj (last.symm.trans last')
    exact Or.inl ⟨sameEpoch ▸ newer, zero⟩

theorem recorded_synced {now base : Int} (last : (s.history d.pid).getLast? = some d) :
    Synced (s.record now d base) d.pid := by
  obtain ⟨prod, entry, epoch, seq⟩ :=
    s.idempotence.record_same now d.pid d.epoch d.firstSeq d.lastSeq base
  unfold Synced
  rw [show (s.record now d base).idempotence.producers d.pid = some prod from entry]
  exact ⟨d, last, epoch, seq⟩

theorem unstored_synced (relies : (Task.append d).Relies s)
    (known : (s.idempotence.producers d.pid).isSome = true ∨ s.history d.pid = []) : Synced s d.pid := by
  rcases relies.2.2 with absent | synced
  · rcases known with entry | empty
    · rw [absent] at entry
      cases entry
    · unfold Synced
      rw [absent]
      exact empty
  · exact synced

structure Untouched (s s' : Leader) (pid : Int) : Prop where
  entry : s'.idempotence.producers pid = s.idempotence.producers pid
  history : s'.history pid = s.history pid

theorem synced_untouched {s' : Leader} {pid : Int} (untouched : Untouched s s' pid) (synced : Synced s pid) :
    Synced s' pid := by
  unfold Synced at synced ⊢
  rw [untouched.entry, untouched.history]
  exact synced

theorem relies_untouched {s' : Leader} {pid : Int} (untouched : Untouched s s' pid) {u : Task}
    (busy : u.sequencing pid = true) (relies : u.Relies s) : u.Relies s' := by
  cases u with
  | append d =>
    obtain rfl := eq_of_beq busy
    simp only [Task.Relies] at relies ⊢
    rw [untouched.entry, untouched.history]
    exact ⟨relies.1, relies.2.1, relies.2.2.imp_right (synced_untouched untouched)⟩
  | record d base =>
    obtain rfl := eq_of_beq busy
    simp only [Task.Relies] at relies ⊢
    rw [untouched.history]
    exact relies
  | _ => trivial

theorem managing_idle {t : Task} (manages : t.managing = true) (pid : Int) : t.sequencing pid = false := by
  cases t <;> first | rfl | cases manages

section Rules

variable {env : Env} {s s' : Leader} {t t' : Task} {pid : Int}

theorem trans_untouched (rule : Trans env s t s' t')
    (current : ∀ d, t = .validate d → ∀ prod, s.idempotence.producers d.pid = some prod →
      IdempotenceState.expired prod env.now = false)
    (before : t.sequencing pid = false) (after : t'.sequencing pid = false) : Untouched s s' pid := by
  -- A verdict other than fresh leaves the whole state alone.
  have refused : ∀ {d : Produce} {verdict : Verdict} {idempotence : IdempotenceState}, t = .validate d →
      s.idempotence.validate env.now d.pid d.epoch d.firstSeq d.lastSeq = (idempotence, verdict) →
      verdict ≠ .fresh → Untouched s { s with idempotence := idempotence } pid := by
    intro d verdict idempotence here result stale
    rcases IdempotenceState.validate_cases result (current d here) with
      ⟨_, rfl⟩ | ⟨fresh, _⟩ | ⟨fresh, _⟩ | ⟨fresh, _⟩
    · exact ⟨rfl, rfl⟩
    all_goals exact absurd fresh stale
  cases rule
  case invalid d code nonzero idempotence result => exact refused rfl result nofun
  case duplicate d cached idempotence result => exact refused rfl result nofun
  case accepted d idempotence result =>
    have apart : pid ≠ d.pid := fun same => by simp [Task.sequencing, same] at after
    exact ⟨IdempotenceState.validate_other result apart, rfl⟩
  case stored d log base result =>
    have apart : d.pid ≠ pid := by simpa [Task.sequencing] using before
    exact ⟨rfl, by rw [history_stored, if_neg apart, List.append_nil]⟩
  case recorded d base =>
    have apart : pid ≠ d.pid := fun same => by simp [Task.sequencing, same] at before
    exact ⟨s.idempotence.record_other apart, rfl⟩
  all_goals exact ⟨rfl, rfl⟩

theorem trans_enters (rule : Trans env s t s' t') (sequenced : 0 ≤ pid) (before : t.sequencing pid = false)
    (after : t'.sequencing pid = true) : ∃ d idempotence, d.pid = pid ∧ t = .validate d ∧ t' = .append d ∧
      s' = { s with idempotence := idempotence } ∧
      s.idempotence.validate env.now d.pid d.epoch d.firstSeq d.lastSeq = (idempotence, .fresh) := by
  cases rule
  case unsequenced q d negative =>
    have same := eq_of_beq after
    omega
  case accepted d idempotence result => exact ⟨d, idempotence, eq_of_beq after, rfl, rfl, rfl, result⟩
  case stored d log base result =>
    split at after
    · rw [show (Task.record d base).sequencing pid = (Task.append d).sequencing pid from rfl, before] at after
      cases after
    · cases after
  case unmoved next level => cases next <;> cases after
  case woken hwm next p result => cases next <;> cases after
  case managed here manages => rw [managing_idle manages] at after; cases after
  case removed id here manages => rw [managing_idle manages] at after; cases after
  case added id here manages => rw [managing_idle manages] at after; cases after
  all_goals cases after

theorem trans_inside (rule : Trans env s t s' t') (sequenced : 0 ≤ pid) (busy : t.sequencing pid = true)
    (known : ∀ d, t = .append d → s.appendFails env d = true → (s.idempotence.producers d.pid).isSome = true ∨
      s.history d.pid = [])
    (valid : ValidHistory (s.history pid)) (relies : t.Relies s) :
    ValidHistory (s'.history pid) ∧ (t'.sequencing pid = true → t'.Relies s') ∧
      (t'.sequencing pid = false → Synced s' pid) := by
  cases rule
  case unstored d code nonzero log next fails grows =>
    obtain rfl := eq_of_beq busy
    exact ⟨valid, nofun, fun _ => synced_untouched ⟨rfl, rfl⟩ (unstored_synced relies (known d rfl fails))⟩
  case stored d log base result =>
    obtain rfl := eq_of_beq busy
    have grown := history_stored (s := s) d base log d.pid
    rw [if_pos rfl] at grown
    rw [if_pos sequenced]
    refine ⟨grown ▸ validHistory_append valid relies.1 relies.2.1, fun _ => ?_, fun idle => ?_⟩
    · simp only [Task.Relies, grown, List.getLast?_append, List.getLast?_singleton, Option.some_or]
    · rw [show (Task.record d base).sequencing d.pid = true from busy] at idle
      cases idle
  case recorded d base =>
    obtain rfl := eq_of_beq busy
    exact ⟨valid, nofun, fun _ => recorded_synced relies⟩
  case stuck hwm result here => cases t <;> first | cases busy | cases here
  case managed here manages => cases t <;> first | cases busy | cases here
  case removed id here manages => cases t <;> first | cases busy | cases here
  case added id here manages => cases t <;> first | cases busy | cases here
  case idled here => cases t <;> first | cases busy | cases here
  all_goals cases busy

end Rules

theorem validated_serialized {i : Nat} {env : Env} (at_i : c.tasks[i]? = some (.validate d))
    (permitted : Serialized c i env) :
    (∀ prod, c.shared.idempotence.producers d.pid = some prod → IdempotenceState.expired prod env.now = false) ∧
      ((c.shared.idempotence.validate env.now d.pid d.epoch d.firstSeq d.lastSeq).2 = .fresh →
        ∀ u ∈ c.tasks, u.sequencing d.pid = false) := by
  simp only [Serialized, serialized, at_i, Task.serialized, Bool.and_eq_true, Bool.or_eq_true, bne_iff_ne,
    List.all_eq_true, Bool.not_eq_true'] at permitted
  refine ⟨fun prod entry => ?_, fun fresh u member => ?_⟩
  · have current := permitted.1
    rw [entry] at current
    simpa using current
  · rcases permitted.2 with stale | alone
    · exact absurd fresh stale
    · exact alone u member

theorem append_serialized {i : Nat} {env : Env} (at_i : c.tasks[i]? = some (.append d))
    (permitted : Serialized c i env) (fails : c.shared.appendFails env d = true) :
    (c.shared.idempotence.producers d.pid).isSome = true ∨ c.shared.history d.pid = [] := by
  simpa only [Serialized, serialized, at_i, Task.serialized, fails, Bool.not_true, Bool.false_or, Bool.or_eq_true,
    List.isEmpty_iff] using permitted

theorem run_serialized {snappy : Bytes → Option Bytes} (reached : Reachable (leaderSystem snappy) Serialized c)
    (pid : { pid : Int // 0 ≤ pid }) :
    Exclusive (fun t => t.sequencing pid = true) (ValidHistory (c.shared.history pid) ∧ Synced c.shared pid)
      (fun t => t.sequencing pid = true ∧ ValidHistory (c.shared.history pid) ∧ t.Relies c.shared) c.tasks := by
  have current : ∀ c i env t, c.tasks[i]? = some t → Serialized c i env →
      ∀ d, t = .validate d → ∀ prod, c.shared.idempotence.producers d.pid = some prod →
        IdempotenceState.expired prod env.now = false := by
    intro c i env t at_i permitted d here
    subst here
    exact (validated_serialized at_i permitted).1
  refine reachable_exclusive (fun (r : { pid : Int // 0 ≤ pid }) t => t.sequencing r = true)
    (fun s r => ValidHistory (s.history r) ∧ Synced s r)
    (fun s r t => t.sequencing r = true ∧ ValidHistory (s.history r) ∧ t.Relies s) ?_ ?_ ?_ ?_ ?_ reached pid
  · intro s r fresh
    have empty : s.history r = [] := by simp [Leader.history, fresh.stored]
    refine ⟨empty ▸ validHistory_nil, ?_⟩
    unfold Synced
    rw [fresh.idempotence]
    exact empty
  · intro t r spawned
    cases spawned <;> nofun
  · intro c i env t s' t' r before at_i permitted moves idle idle'
    have untouched := trans_untouched (system_trans moves).2 (current c i env t at_i permitted)
      (Bool.eq_false_iff.mpr idle) (Bool.eq_false_iff.mpr idle')
    refine ⟨fun rests => ?_, fun u owns => ?_⟩
    · exact ⟨untouched.history ▸ rests.1, synced_untouched untouched rests.2⟩
    · exact ⟨owns.1, untouched.history ▸ owns.2.1, relies_untouched untouched owns.1 owns.2.2⟩
  · intro c i env t s' t' r before at_i permitted moves idle busy
    obtain ⟨d, idempotence, same, rfl, rfl, rfl, result⟩ :=
      trans_enters (system_trans moves).2 r.2 (Bool.eq_false_iff.mpr idle) busy
    obtain ⟨unexpired, alone⟩ := validated_serialized at_i permitted
    refine ⟨fun u member => ?_, fun rests => ⟨busy, rests.1, ?_⟩⟩
    · rw [← same, alone (by rw [result]) u member]
      decide
    · exact accepted_relies result unexpired (same ▸ rests.2)
  · intro c i env t s' t' r before at_i permitted moves busy owns
    have known : ∀ d, t = .append d → c.shared.appendFails env d = true →
        (c.shared.idempotence.producers d.pid).isSome = true ∨ c.shared.history d.pid = [] := by
      intro d here fails
      subst here
      exact append_serialized at_i permitted fails
    obtain ⟨valid, keeps, leaves⟩ := trans_inside (system_trans moves).2 r.2 busy known owns.2.1 owns.2.2
    exact ⟨fun busy' => ⟨busy', valid, keeps busy'⟩, fun idle => ⟨valid, leaves (Bool.eq_false_iff.mpr idle)⟩⟩

def emptyBatch (producerId : Nat) : Bytes :=
  List.replicate 43 0 ++ beBytes 8 producerId ++ beBytes 2 0 ++ beBytes 4 0 ++ beBytes 4 0 ++ [0]

end KafGo.Partition
