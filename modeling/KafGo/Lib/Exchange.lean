import KafGo.Lib.Bytes
import KafGo.Lib.Projection

/-!
# Requests and replies on one connection

Any number of callers share a connection under a lock. A caller writes its request as a frame, which is a length and
that many bytes, and takes the next frame that comes back for its reply. Nothing in the bytes says whose reply it is.
The connection may break at any byte, and a caller may notice that late. What the server answers depends on a state of
its own, which a request may change, and so may anything else that goes on there.

A failed call leaves the bytes that it has not read on the connection. Only a broken connection has none that come
later, so the next caller gets its own reply as long as no reply is refused for its length.
-/

namespace KafGo.Lib

def frame (p : Bytes) : Bytes := beBytes 4 p.length ++ p

inductive Reaction where
  | reply (body : Bytes)
  | silent
  | close

/-- Frames above `limit` are refused on both sides. The client has a state of its own, which a request depends on. -/
structure Exchange (κ ρ σ : Type) where
  limit : Nat
  small : limit < 2 ^ 32
  encode : κ → ρ → Bytes
  next : κ → κ
  answer : σ → Bytes → Reaction × σ

/-- A request that was answered, with the state in which the server took it. -/
structure Served (σ : Type) where
  server : σ
  request : Bytes
  reply : Bytes

/-- `up` and `down` are the bytes on their way. On a `dead` connection no more bytes arrive. -/
structure Link (κ σ : Type) where
  locked : Bool
  client : κ
  server : σ
  up : Bytes
  down : Bytes
  dead : Bool
  answers : List (Served σ)

structure Surroundings (σ : Type) where
  unnoticed : Bool
  server : σ

/-- The steps of a call, the loop of the server, what else the server does, and the end of the connection. -/
inductive Caller (ρ : Type) where
  | call (r : ρ)
  | writeLen (r : ρ) (p : Bytes)
  | writeBody (r : ρ) (p : Bytes)
  | readLen (r : ρ) (p : Bytes)
  | readBody (r : ρ) (p : Bytes) (n : Nat)
  | returned (r : ρ) (p body : Bytes)
  | failed (r : ρ)
  | serve
  | elsewhere
  | cut (kept : Nat)
  | ended

def Link.unlock {κ σ : Type} (s : Link κ σ) : Link κ σ := { s with locked := false }

namespace Exchange

variable {κ ρ σ : Type}

def react (x : Exchange κ ρ σ) (s : Link κ σ) (p : Bytes) : Link κ σ :=
  let after := { s with up := s.up.drop (4 + p.length), server := (x.answer s.server p).2 }
  match (x.answer s.server p).1 with
  | .reply body => { after with down := s.down ++ frame body, answers := s.answers ++ [⟨s.server, p, body⟩] }
  | .silent => after
  | .close => { after with dead := true }

/-- `unnoticed` says that a write to a dead connection succeeds. `elsewhere` changes the state of the server in any
way. -/
def step (x : Exchange κ ρ σ) (env : Surroundings σ) (s : Link κ σ) : Caller ρ → Option (Link κ σ × Caller ρ)
  | .call r => if s.locked then none else some ({ s with locked := true }, .writeLen r (x.encode s.client r))
  | .writeLen r p =>
    if s.dead then some (if env.unnoticed then (s, .writeBody r p) else (s.unlock, .failed r))
    else some ({ s with up := s.up ++ beBytes 4 p.length }, .writeBody r p)
  | .writeBody r p =>
    if s.dead then some (if env.unnoticed then ({ s with client := x.next s.client },
      .readLen r p) else (s.unlock, .failed r))
    else some ({ s with up := s.up ++ p, client := x.next s.client }, .readLen r p)
  | .readLen r p =>
    if 4 ≤ s.down.length then
      let n := beNat (s.down.take 4)
      let s := { s with down := s.down.drop 4 }
      some (if n = 0 ∨ x.limit < n then (s.unlock, .failed r) else (s, .readBody r p n))
    else if s.dead then some ({ s with down := [] }.unlock, .failed r)
    else none
  | .readBody r p n =>
    if n ≤ s.down.length then some ({ s with down := s.down.drop n }.unlock, .returned r p (s.down.take n))
    else if s.dead then some ({ s with down := [] }.unlock, .failed r)
    else none
  | .serve =>
    if s.dead ∨ s.up.length < 4 then none
    else
      let n := beNat (s.up.take 4)
      if n = 0 ∨ x.limit < n then some ({ s with dead := true }, .serve)
      else if s.up.length < 4 + n then none
      else some (x.react s ((s.up.drop 4).take n), .serve)
  | .elsewhere => some ({ s with server := env.server }, .elsewhere)
  | .cut kept => some ({ s with dead := true, down := s.down.take kept }, .ended)
  | .returned .. | .failed _ | .ended => none

end Exchange

structure Link.Fresh {κ σ : Type} (s : Link κ σ) : Prop where
  locked : s.locked = false
  up : s.up = []
  down : s.down = []
  answers : s.answers = []

inductive Caller.Started {ρ : Type} : Caller ρ → Prop where
  | call (r : ρ) : Started (.call r)
  | serve : Started .serve
  | elsewhere : Started .elsewhere
  | cut (kept : Nat) : Started (.cut kept)

def Exchange.system {κ ρ σ : Type} (x : Exchange κ ρ σ) : System (Link κ σ) (Caller ρ) (Surroundings σ) where
  start := Link.Fresh
  spawn := Caller.Started
  step := x.step

/-- The length of a request fits its field, and no reply is longer than the limit. -/
def Exchange.orderly {κ ρ σ : Type} (x : Exchange κ ρ σ) (s : Link κ σ) : Caller ρ → Bool
  | .writeLen _ p => decide (p.length < 2 ^ 32)
  | .serve => match (x.answer s.server ((s.up.drop 4).take (beNat (s.up.take 4)))).1 with
    | .reply body => decide (body.length ≤ x.limit)
    | _ => true
  | _ => true

def Exchange.Orderly {κ ρ σ : Type} (x : Exchange κ ρ σ) : Condition (Link κ σ) (Caller ρ) (Surroundings σ) :=
  atTask fun s t _ => x.orderly s t = true

/-! ### What a step can do -/

section Steps

variable {κ ρ σ : Type} {x : Exchange κ ρ σ} {s s' : Link κ σ} {t t' : Caller ρ} {env : Surroundings σ}

def Caller.holds : Caller ρ → Bool
  | .writeLen .. | .writeBody .. | .readLen .. | .readBody .. => true
  | _ => false

inductive Moves (x : Exchange κ ρ σ) (s : Link κ σ) : Caller ρ → Link κ σ → Caller ρ → Prop where
  | locks (r : ρ) (free : s.locked = false) :
      Moves x s (.call r) { s with locked := true } (.writeLen r (x.encode s.client r))
  | writesLen (r : ρ) (p : Bytes) (alive : s.dead = false) :
      Moves x s (.writeLen r p) { s with up := s.up ++ beBytes 4 p.length } (.writeBody r p)
  | losesLen (r : ρ) (p : Bytes) (dead : s.dead = true) : Moves x s (.writeLen r p) s (.writeBody r p)
  | writesBody (r : ρ) (p : Bytes) (alive : s.dead = false) :
      Moves x s (.writeBody r p) { s with up := s.up ++ p, client := x.next s.client } (.readLen r p)
  | losesBody (r : ρ) (p : Bytes) (dead : s.dead = true) :
      Moves x s (.writeBody r p) { s with client := x.next s.client } (.readLen r p)
  | readsLen (r : ρ) (p : Bytes) (n : Nat) (enough : 4 ≤ s.down.length) (length : beNat (s.down.take 4) = n)
      (some_byte : n ≠ 0) (within : n ≤ x.limit) :
      Moves x s (.readLen r p) { s with down := s.down.drop 4 } (.readBody r p n)
  | refuses (r : ρ) (p : Bytes) (enough : 4 ≤ s.down.length)
      (bad : beNat (s.down.take 4) = 0 ∨ x.limit < beNat (s.down.take 4)) :
      Moves x s (.readLen r p) { s with down := s.down.drop 4, locked := false } (.failed r)
  | readsBody (r : ρ) (p : Bytes) (n : Nat) (enough : n ≤ s.down.length) :
      Moves x s (.readBody r p n) { s with down := s.down.drop n, locked := false } (.returned r p (s.down.take n))
  | failsLen (r : ρ) (p : Bytes) (dead : s.dead = true) : Moves x s
      (.writeLen r p) { s with locked := false } (.failed r)
  | failsBody (r : ρ) (p : Bytes) (dead : s.dead = true) : Moves x s
      (.writeBody r p) { s with locked := false } (.failed r)
  | failsRead (t : Caller ρ) (r : ρ) (holder : t.holds = true) (dead : s.dead = true) :
      Moves x s t { s with down := [], locked := false } (.failed r)
  | closes (alive : s.dead = false) : Moves x s .serve { s with dead := true } .serve
  | serves (p : Bytes) (alive : s.dead = false) (here : p = (s.up.drop 4).take (beNat (s.up.take 4)))
      (enough : 4 + p.length ≤ s.up.length) (some_byte : p.length ≠ 0) : Moves x s .serve (x.react s p) .serve
  | changes (server : σ) : Moves x s .elsewhere { s with server := server } .elsewhere
  | cuts (kept : Nat) : Moves x s (.cut kept) { s with dead := true, down := s.down.take kept } .ended

theorem step_moves (moves : x.step env s t = some (s', t')) : Moves x s t s' t' := by
  cases t with
  | call r =>
    simp only [Exchange.step] at moves
    split at moves
    · cases moves
    · cases moves
      exact .locks r (by simpa using ‹¬ s.locked = true›)
  | writeLen r p =>
    simp only [Exchange.step] at moves
    split at moves
    · split at moves
      · cases moves
        exact .losesLen r p (by assumption)
      · cases moves
        exact .failsLen r p (by assumption)
    · cases moves
      exact .writesLen r p (by simpa using ‹¬ s.dead = true›)
  | writeBody r p =>
    simp only [Exchange.step] at moves
    split at moves
    · split at moves
      · cases moves
        exact .losesBody r p (by assumption)
      · cases moves
        exact .failsBody r p (by assumption)
    · cases moves
      exact .writesBody r p (by simpa using ‹¬ s.dead = true›)
  | readLen r p =>
    simp only [Exchange.step] at moves
    split at moves
    · rename_i enough
      split at moves
      · cases moves
        exact .refuses r p enough (by assumption)
      · rename_i good
        cases moves
        exact .readsLen r p _ enough rfl (by omega) (by omega)
    · split at moves
      · cases moves
        exact .failsRead _ r rfl (by assumption)
      · cases moves
  | readBody r p n =>
    simp only [Exchange.step] at moves
    split at moves
    · cases moves
      exact .readsBody r p n (by assumption)
    · split at moves
      · cases moves
        exact .failsRead _ r rfl (by assumption)
      · cases moves
  | serve =>
    simp only [Exchange.step] at moves
    split at moves
    · cases moves
    · rename_i ready
      have alive : s.dead = false := by simpa using (not_or.mp ready).1
      split at moves
      · cases moves
        exact .closes alive
      · rename_i good
        split at moves
        · cases moves
        · rename_i enough
          cases moves
          have size : ((s.up.drop 4).take (beNat (s.up.take 4))).length = beNat (s.up.take 4) := by
            rw [List.length_take, List.length_drop]
            omega
          exact .serves _ alive rfl (by omega) (by omega)
  | elsewhere =>
    cases moves
    exact .changes env.server
  | cut kept =>
    cases moves
    exact .cuts kept
  | returned r p body => cases moves
  | failed r => cases moves
  | ended => cases moves

end Steps

section Lock

variable {κ ρ σ : Type} {x : Exchange κ ρ σ} {allowed : Condition (Link κ σ) (Caller ρ) (Surroundings σ)}
  {c : Config (Link κ σ) (Caller ρ)}

theorem react_locked (x : Exchange κ ρ σ) (s : Link κ σ) (p : Bytes) : (x.react s p).locked = s.locked := by
  unfold Exchange.react
  dsimp only
  split <;> rfl

theorem moves_locked {s s' : Link κ σ} {t t' : Caller ρ} (moves : Moves x s t s' t')
    (held : t.holds = true → s.locked = true) :
    s'.locked.toNat + t.holds.toNat = s.locked.toNat + t'.holds.toNat := by
  cases moves with
  | locks r free =>
    rw [free]
    rfl
  | refuses | readsBody | failsLen | failsBody =>
    rw [held rfl]
    rfl
  | failsRead _ r holder dead =>
    rw [holder, held holder]
    rfl
  | serves p alive here enough some_byte => rw [react_locked]
  | _ => rfl

theorem lock_counts (reached : Reachable x.system allowed c) : c.tasks.countP Caller.holds = c.shared.locked.toNat := by
  induction reached with
  | start fresh =>
    rw [fresh.locked]
    rfl
  | @spawn c t before new ih =>
    rw [List.countP_append, ih]
    cases new <;> rfl
  | @act c i t t' s' env before at_i permitted moves ih =>
    obtain ⟨inside, here⟩ := List.getElem?_eq_some_iff.mp at_i
    have held : t.holds = true → c.shared.locked = true := by
      intro holds
      have positive : 0 < c.tasks.countP Caller.holds := List.countP_pos_iff.mpr ⟨t, List.mem_of_getElem? at_i, holds⟩
      rw [ih] at positive
      cases locked : c.shared.locked with
      | true => rfl
      | false =>
        rw [locked] at positive
        cases positive
    have conserved := moves_locked (step_moves moves) held
    show (c.tasks.set i t').countP Caller.holds = s'.locked.toNat
    have weight : ∀ u : Caller ρ, (if u.holds = true then 1 else 0) = u.holds.toNat := by
      intro u
      cases u.holds <;> rfl
    have bound : t.holds.toNat ≤ c.tasks.countP Caller.holds := by
      cases holds : t.holds with
      | true => exact List.countP_pos_iff.mpr ⟨t, List.mem_of_getElem? at_i, holds⟩
      | false => exact Nat.zero_le _
    rw [List.countP_set inside, here, weight, weight]
    omega

theorem unlocked_nobody (reached : Reachable x.system allowed c) (free : c.shared.locked = false) :
    ∀ u ∈ c.tasks, ¬ u.holds = true := by
  have none_holds : c.tasks.countP Caller.holds = 0 := by rw [lock_counts reached, free]; rfl
  exact List.countP_eq_zero.mp none_holds

end Lock

/-! ### The bytes on their way -/

structure Link.Quiet {κ σ : Type} (s : Link κ σ) : Prop where
  down : s.down = []
  up : s.dead = false → s.up = []

/-- The reply to `p`, or what is left of it, is on its way. -/
structure Link.Answering {κ σ : Type} (s : Link κ σ) (limit : Nat) (p body rest : Bytes) : Prop where
  answered : ∃ server, ⟨server, p, body⟩ ∈ s.answers
  within : body.length ≤ limit
  down : s.down <+: rest
  alive : s.dead = false → s.up = [] ∧ s.down = rest

/-- What a call knows of the bytes while it holds the lock. -/
def Caller.Sees {κ ρ σ : Type} (limit : Nat) (s : Link κ σ) : Caller ρ → Prop
  | .writeLen _ _ => s.Quiet
  | .writeBody _ p => s.down = [] ∧ p.length < 2 ^ 32 ∧ (s.dead = false → s.up = beBytes 4 p.length)
  | .readLen _ p => (s.down = [] ∧ p.length < 2 ^ 32 ∧ (s.dead = false → s.up = frame p ∨ s.up = [])) ∨
      ∃ body, s.Answering limit p body (frame body)
  | .readBody _ p n => ∃ body, s.Answering limit p body body ∧ n = body.length
  | _ => True

section Bytes

variable {κ ρ σ : Type} {x : Exchange κ ρ σ} {s : Link κ σ}

theorem length_frame (p : Bytes) : (frame p).length = 4 + p.length := by simp [frame]

theorem frame_head {p : Bytes} (fits : p.length < 2 ^ 32) : beNat ((frame p).take 4) = p.length := by
  rw [frame, List.take_left' (length_beBytes 4 _), beNat_beBytes]
  exact Nat.mod_eq_of_lt fits

theorem prefix_head {down body : Bytes} (begins : down <+: frame body) (enough : 4 ≤ down.length)
    (fits : body.length < 2 ^ 32) :
    beNat (down.take 4) = body.length := by
  obtain ⟨rest, whole⟩ := begins
  rw [← frame_head fits, ← whole, List.take_append_of_le_length enough]

theorem frame_drop (p : Bytes) : (frame p).drop 4 = p := List.drop_left' (length_beBytes 4 _)

theorem prefix_tail {down body : Bytes} (begins : down <+: frame body) (enough : 4 ≤ down.length) :
    down.drop 4 <+: body := by
  obtain ⟨rest, whole⟩ := begins
  exact ⟨rest, by rw [← List.drop_append_of_le_length enough, whole, frame_drop]⟩

variable {u : Caller ρ}

theorem cut_sees (kept : Nat) (sees : u.Sees x.limit s) :
    u.Sees x.limit { s with dead := true, down := s.down.take kept } := by
  have shorter : s.down = [] → s.down.take kept = [] := fun empty => by rw [empty, List.take_nil]
  have answering : ∀ {p body rest : Bytes}, s.Answering x.limit p body rest →
      Link.Answering { s with dead := true, down := s.down.take kept } x.limit p body rest := fun before =>
    ⟨before.answered, before.within, ( List.take_prefix kept s.down).trans before.down, nofun⟩
  cases u with
  | writeLen r p => exact ⟨shorter sees.down, nofun⟩
  | writeBody r p => exact ⟨shorter sees.1, sees.2.1, nofun⟩
  | readLen r p =>
    rcases sees with ⟨empty, fits, _⟩ | ⟨body, before⟩
    · exact Or.inl ⟨shorter empty, fits, nofun⟩
    · exact Or.inr ⟨body, answering before⟩
  | readBody r p n =>
    obtain ⟨body, before, length⟩ := sees
    exact ⟨body, answering before, length⟩
  | _ => trivial

theorem change_sees (server : σ) (sees : u.Sees x.limit s) : u.Sees x.limit { s with server := server } := by
  cases u with
  | writeLen r p => exact ⟨sees.down, sees.up⟩
  | writeBody r p => exact sees
  | readLen r p =>
    rcases sees with waiting | ⟨body, before⟩
    · exact Or.inl waiting
    · exact Or.inr ⟨body, before.answered, before.within, before.down, before.alive⟩
  | readBody r p n =>
    obtain ⟨body, before, length⟩ := sees
    exact ⟨body, ⟨before.answered, before.within, before.down, before.alive⟩, length⟩
  | _ => trivial

theorem close_sees (sees : u.Sees x.limit s) : u.Sees x.limit { s with dead := true } := by
  have whole := cut_sees s.down.length sees
  rwa [List.take_length] at whole

theorem serve_sees {p : Bytes} (alive : s.dead = false) (here : p = (s.up.drop 4).take (beNat (s.up.take 4)))
    (enough : 4 + p.length ≤ s.up.length) (some_byte : p.length ≠ 0)
    (fits : ∀ body, (x.answer s.server p).1 = .reply body → body.length ≤ x.limit) (sees : u.Sees x.limit s) :
    u.Sees x.limit (x.react s p) := by
  have busy : s.up ≠ [] := by
    intro empty
    rw [empty, List.length_nil] at enough
    omega
  cases u with
  | writeLen r q => exact absurd (sees.up alive) busy
  | writeBody r q =>
    rw [sees.2.2 alive, length_beBytes] at enough
    omega
  | readLen r q =>
    rcases sees with ⟨empty, small, under⟩ | ⟨body, before⟩
    · have whole := (under alive).resolve_right busy
      obtain rfl : p = q := by rw [here, whole, frame_head small, frame_drop, List.take_length]
      have gone : s.up.drop (4 + p.length) = [] := by
        rw [whole]
        exact List.drop_eq_nil_of_le (length_frame p).le
      unfold Exchange.react
      dsimp only
      split
      · rename_i body replied
        have down : s.down ++ frame body = frame body := by rw [empty, List.nil_append]
        exact Or.inr ⟨body, ⟨s.server, by simp⟩, fits body replied, ⟨[], by rw [List.append_nil]; exact down⟩,
          fun _ => ⟨gone, down⟩⟩
      · exact Or.inl ⟨empty, small, fun _ => Or.inr gone⟩
      · exact Or.inl ⟨empty, small, nofun⟩
    · exact absurd (before.alive alive).1 busy
  | readBody r q n =>
    obtain ⟨body, before, _⟩ := sees
    exact absurd (before.alive alive).1 busy
  | _ => trivial

theorem holder_sees {s' : Link κ σ} {t t' : Caller ρ} (moves : Moves x s t s' t') (holds : t.holds = true)
    (orderly : x.orderly s t = true) (sees : t.Sees x.limit s) :
    (t'.holds = true → t'.Sees x.limit s') ∧ (¬ t'.holds = true → s'.Quiet) := by
  cases moves with
  | writesLen r p alive =>
    refine ⟨fun _ => ⟨sees.down, of_decide_eq_true orderly, fun _ => ?_⟩, fun lets => absurd rfl lets⟩
    show s.up ++ beBytes 4 p.length = _
    rw [sees.up alive, List.nil_append]
  | losesLen r p dead =>
    refine ⟨fun _ => ⟨sees.down, of_decide_eq_true orderly, fun alive => ?_⟩, fun lets => absurd rfl lets⟩
    rw [dead] at alive
    cases alive
  | writesBody r p alive =>
    refine ⟨fun _ => Or.inl ⟨sees.1, sees.2.1, fun _ => Or.inl ?_⟩, fun lets => absurd rfl lets⟩
    show s.up ++ p = _
    rw [sees.2.2 alive]
    rfl
  | losesBody r p dead =>
    refine ⟨fun _ => Or.inl ⟨sees.1, sees.2.1, fun alive => ?_⟩, fun lets => absurd rfl lets⟩
    have alive : s.dead = false := alive
    rw [dead] at alive
    cases alive
  | readsLen r p n enough length some_byte within =>
    refine ⟨fun _ => ?_, fun lets => absurd rfl lets⟩
    rcases sees with ⟨empty, _⟩ | ⟨body, before⟩
    · rw [empty] at enough
      cases enough
    · have fits : body.length < 2 ^ 32 := Nat.lt_of_le_of_lt before.within x.small
      refine ⟨body, ⟨before.answered, before.within, prefix_tail before.down enough, fun alive => ?_⟩, ?_⟩
      · obtain ⟨up, down⟩ := before.alive alive
        exact ⟨up, by show s.down.drop 4 = body; rw [down, frame_drop]⟩
      · rw [← length, prefix_head before.down enough fits]
  | refuses r p enough bad =>
    refine ⟨fun takes => (by cases takes), fun _ => ?_⟩
    rcases sees with ⟨empty, _⟩ | ⟨body, before⟩
    · rw [empty] at enough
      cases enough
    · have within := before.within
      rw [prefix_head before.down enough (Nat.lt_of_le_of_lt within x.small)] at bad
      have rest := prefix_tail before.down enough
      rw [List.length_eq_zero_iff.mp (by omega : body.length = 0)] at rest
      exact ⟨List.prefix_nil.mp rest, fun alive => (before.alive alive).1⟩
  | readsBody r p n enough =>
    refine ⟨fun takes => (by cases takes), fun _ => ?_⟩
    obtain ⟨body, before, rfl⟩ := sees
    refine ⟨?_, fun alive => (before.alive alive).1⟩
    show s.down.drop body.length = []
    exact List.drop_eq_nil_of_le before.down.length_le
  | failsLen r p dead =>
    refine ⟨fun takes => (by cases takes), fun _ => ⟨sees.down, fun alive => ?_⟩⟩
    exact absurd (dead.symm.trans alive) (by decide)
  | failsBody r p dead =>
    refine ⟨fun takes => (by cases takes), fun _ => ⟨sees.1, fun alive => ?_⟩⟩
    exact absurd (dead.symm.trans alive) (by decide)
  | failsRead _ r holder dead =>
    refine ⟨fun takes => (by cases takes), fun _ => ⟨rfl, fun alive => ?_⟩⟩
    exact absurd (dead.symm.trans alive) (by decide)
  | _ => cases holds

end Bytes

/-! ### All runs -/

section Runs

variable {κ ρ σ : Type} {x : Exchange κ ρ σ} {c : Config (Link κ σ) (Caller ρ)}

variable {s s' : Link κ σ} {p : Bytes}

theorem orderly_reply {body : Bytes} (here : p = (s.up.drop 4).take (beNat (s.up.take 4)))
    (orderly : x.orderly s .serve = true) (replied : (x.answer s.server p).1 = .reply body) :
    body.length ≤ x.limit := by
  rw [here] at replied
  simpa only [Exchange.orderly, replied, decide_eq_true_eq] using orderly

/-- Either nothing is on its way, or the call that holds the lock knows what is. -/
theorem run_exclusive (reached : Reachable x.system x.Orderly c) :
    Exclusive (fun t => t.holds = true) c.shared.Quiet (fun t => t.Sees x.limit c.shared) c.tasks := by
  refine reachable_exclusive (fun (_ : Unit) t => t.holds = true) (fun s _ => s.Quiet) (fun s _ t => t.Sees x.limit s)
    ?_ ?_ ?_ ?_ ?_ reached ()
  · intro s _ fresh
    exact ⟨fresh.down, fun _ => fresh.up⟩
  · intro t _ new
    cases new <;> nofun
  · intro c i env t s' t' _ _ at_i permitted moves outside lets
    have orderly := permitted t at_i
    cases step_moves moves with
    | locks r free => exact absurd rfl lets
    | failsRead _ r holder dead => exact absurd holder outside
    | closes alive => exact ⟨fun quiet => ⟨quiet.down, nofun⟩, fun u sees => close_sees sees⟩
    | changes server => exact ⟨fun quiet => ⟨quiet.down, quiet.up⟩, fun u sees => change_sees server sees⟩
    | cuts kept => exact ⟨fun quiet => ⟨by simp [quiet.down], nofun⟩, fun u sees => cut_sees kept sees⟩
    | serves p alive here enough some_byte =>
      refine ⟨fun quiet => ?_, fun u => serve_sees alive here enough some_byte fun body => orderly_reply here orderly⟩
      rw [quiet.up alive, List.length_nil] at enough
      omega
    | _ => exact absurd rfl outside
  · intro c i env t s' t' _ before at_i permitted moves outside takes
    cases step_moves moves with
    | locks r free => exact ⟨unlocked_nobody before free, fun quiet => ⟨quiet.down, quiet.up⟩⟩
    | _ => first | exact absurd rfl outside | cases takes
  · intro c i env t s' t' _ _ at_i permitted moves holds sees
    exact holder_sees (step_moves moves) holds (permitted t at_i) sees

theorem react_answers {e : Served σ} (member : e ∈ (x.react s p).answers) :
    e ∈ s.answers ∨ ∃ body, e = ⟨s.server, p, body⟩ ∧ (x.answer s.server p).1 = .reply body := by
  unfold Exchange.react at member
  dsimp only at member
  split at member
  · rename_i body replied
    rcases List.mem_append.mp member with old | new
    · exact Or.inl old
    · exact Or.inr ⟨body, List.mem_singleton.mp new, replied⟩
  · exact Or.inl member
  · exact Or.inl member

theorem moves_answers {t t' : Caller ρ} (moves : Moves x s t s' t') {e : Served σ} (member : e ∈ s.answers) :
    e ∈ s'.answers := by
  cases moves with
  | serves p alive here enough some_byte =>
    unfold Exchange.react
    dsimp only
    split
    · exact List.mem_append_left _ member
    · exact member
    · exact member
  | _ => exact member

theorem run_answers (reached : Reachable x.system x.Orderly c) :
    ∀ e ∈ c.shared.answers, e.reply.length ≤ x.limit ∧ (x.answer e.server e.request).1 = .reply e.reply := by
  refine (reachable_local
    (fun s => ∀ e ∈ s.answers, e.reply.length ≤ x.limit ∧ (x.answer e.server e.request).1 = .reply e.reply)
      (fun _ _ => True) ?_ (fun _ _ _ _ => trivial) ?_ reached).1
  · intro s fresh e member
    rw [fresh.answers] at member
    cases member
  · intro c i env t s' t' _ at_i permitted moves given _
    refine ⟨fun e member => ?_, trivial, fun _ _ _ => trivial⟩
    have orderly := permitted t at_i
    cases step_moves moves with
    | serves p alive here enough some_byte =>
      rcases react_answers member with old | ⟨body, rfl, replied⟩
      · exact given e old
      · exact ⟨orderly_reply here orderly replied, replied⟩
    | _ => exact given e member

/-- The frame of a call is its request, and what it returns is the answer to that. -/
def Caller.Matched (x : Exchange κ ρ σ) (s : Link κ σ) : Caller ρ → Prop
  | .writeLen r p | .writeBody r p | .readLen r p | .readBody r p _ => ∃ k, p = x.encode k r
  | .returned r p body => (∃ k, p = x.encode k r) ∧ ∃ server, ⟨server, p, body⟩ ∈ s.answers
  | _ => True

theorem matched_stable (kept : ∀ e ∈ s.answers, e ∈ s'.answers) (u : Caller ρ) (matched : u.Matched x s) :
    u.Matched x s' := by
  cases u with
  | returned r p body => exact ⟨matched.1, matched.2.imp fun _ member => kept _ member⟩
  | _ => exact matched

theorem reads_own {i : Nat} {r : ρ} {n : Nat} (reached : Reachable x.system x.Orderly c)
    (at_i : c.tasks[i]? = some (.readBody r p n)) (enough : n ≤ c.shared.down.length) :
    ∃ server, ⟨server, p, c.shared.down.take n⟩ ∈ c.shared.answers := by
  cases run_exclusive reached with
  | free nobody rests => exact absurd rfl (nobody _ (List.mem_of_getElem? at_i))
  | @held j t at_j holds sees only =>
    obtain rfl := only i _ at_i rfl
    rw [at_i] at at_j
    obtain rfl := Option.some.inj at_j
    obtain ⟨body, before, rfl⟩ := sees
    rw [before.down.eq_of_length_le enough, List.take_length]
    exact before.answered

/-- However the callers, the server and the end of the connection interleave, a caller that gets a reply gets the
server's answer to its own request. -/
theorem run_matched (reached : Reachable x.system x.Orderly c) : ∀ t ∈ c.tasks, t.Matched x c.shared := by
  refine (reachable_local (fun _ => True) (fun s t => t.Matched x s) (fun _ _ => trivial) ?_ ?_ reached).2
  · intro s t _ new
    cases new <;> trivial
  · intro c i env t s' t' before at_i _ moves _ matched
    have moved := step_moves moves
    refine ⟨trivial, ?_, fun u _ old => matched_stable (fun e => moves_answers moved) u old⟩
    cases moved with
    | locks r free => exact ⟨_, rfl⟩
    | readsBody r p n enough => exact ⟨matched, reads_own before at_i enough⟩
    | failsRead _ r holder dead => trivial
    | _ => first | exact matched | trivial

theorem caller_acts (env : Surroundings σ) {t t' : Caller ρ} (reached : Reachable x.system x.Orderly ⟨s, [t, .serve]⟩)
    (orderly : x.orderly s t = true) (moves : x.step env s t = some (s', t')) :
    Reachable x.system x.Orderly ⟨s', [t', .serve]⟩ := by
  have at_0 : ([t, .serve] : List (Caller ρ))[0]? = some t := rfl
  refine Reachable.act env reached at_0 (fun u here => ?_) moves
  obtain rfl := Option.some.inj here
  exact orderly

theorem call_returns (server after : σ) (k : κ) (r : ρ) {body : Bytes} (sent : x.encode k r = p)
    (answered : x.answer server p = (.reply body, after)) (nonempty : 0 < p.length) (within : p.length ≤ x.limit)
    (nonempty' : 0 < body.length) (within' : body.length ≤ x.limit) :
    Reachable x.system x.Orderly ⟨⟨false, x.next k, after, [], [], false, [⟨server, p, body⟩]⟩,
      [.returned r p body, .serve]⟩ := by
  have small := x.small
  have length_p := frame_head (show p.length < 2 ^ 32 by omega)
  have length_body := frame_head (show body.length < 2 ^ 32 by omega)
  have idle : Reachable x.system x.Orderly ⟨⟨false, k, server, [], [], false, []⟩, [.call r, .serve]⟩ := by
    have fresh : x.system.start ⟨false, k, server, [], [], false, []⟩ := Link.Fresh.mk rfl rfl rfl rfl
    exact ((Reachable.start fresh).spawn (Caller.Started.call r)).spawn Caller.Started.serve
  have locked : Reachable x.system x.Orderly ⟨⟨true, k, server, [], [], false, []⟩, [.writeLen r p, .serve]⟩ :=
    caller_acts ⟨false, server⟩ idle rfl (by rw [← sent]; rfl)
  have announced : Reachable x.system x.Orderly ⟨⟨true, k, server, beBytes 4 p.length, [], false, []⟩,
    [.writeBody r p, .serve]⟩ :=
    caller_acts ⟨false, server⟩ locked (decide_eq_true (by omega)) rfl
  have written : Reachable x.system x.Orderly ⟨⟨true, x.next k, server, frame p, [], false, []⟩,
    [.readLen r p, .serve]⟩ :=
    caller_acts ⟨false, server⟩ announced rfl rfl
  have served : Reachable x.system x.Orderly
      ⟨⟨true, x.next k, after, [], frame body, false, [⟨server, p, body⟩]⟩, [.readLen r p, .serve]⟩ := by
    have request : ((frame p).drop 4).take (beNat ((frame p).take 4)) = p := by
      rw [frame_drop, length_p, List.take_length]
    have gone : (frame p).drop (4 + p.length) = [] := List.drop_eq_nil_of_le (length_frame p).le
    have reacts : x.react ⟨true, x.next k, server, frame p, [], false, []⟩ p =
        ⟨true, x.next k, after, [], frame body, false, [⟨server, p, body⟩]⟩ := by
      unfold Exchange.react
      dsimp only
      rw [answered, gone]
      rfl
    have moves : x.step ⟨false, server⟩ ⟨true, x.next k, server, frame p, [], false, []⟩ .serve =
        some (⟨true, x.next k, after, [], frame body, false, [⟨server, p, body⟩]⟩, .serve) := by
      unfold Exchange.step
      dsimp only
      rw [request, reacts, length_p, length_frame, if_neg (by simp), if_neg (by omega), if_neg (by omega)]
    have at_1 : ([.readLen r p, .serve] : List (Caller ρ))[1]? = some .serve := rfl
    refine Reachable.act (Surroundings.mk false server) written at_1 (fun u here => ?_) moves
    obtain rfl := Option.some.inj here
    show x.orderly _ .serve = true
    simp only [Exchange.orderly, request, answered]
    exact decide_eq_true within'
  have counted : Reachable x.system x.Orderly
      ⟨⟨true, x.next k, after, [], body, false, [⟨server, p, body⟩]⟩, [.readBody r p body.length, .serve]⟩ := by
    refine caller_acts ⟨false, server⟩ served rfl ?_
    simp only [Exchange.step, length_body, length_frame, frame_drop]
    rw [if_pos (by omega), if_neg (by omega)]
  refine caller_acts ⟨false, server⟩ counted rfl ?_
  simp [Exchange.step, Link.unlock]

end Runs

end KafGo.Lib
